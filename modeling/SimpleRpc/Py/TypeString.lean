import SimpleRpc.Rpc.WireTypes

/-!
# Type Strings (`rpcgen.g`, `Marshal.template_split`)

`rpcgen` prints the types of a `.rpc` file as C++ type names. The C++ compiler reads them once;
the Python library takes the same strings apart whenever it writes or reads an object.

## Layers

- **Printing**: `TypeTree.print`, the actions of the rules `type` and `full_symbol` on a parse tree
- **Taking apart**: `kindOf`, `arguments` and `templateSplit`, as in `marshal.py`
- **Meaning**: `Denotes`, the C++ type that a parse tree stands for

## Main results

- `Denotes.printed`: the tests on a printed type find its kind, and `template_split` does not split
  inside of it
- `arguments_one`, `templateSplit_arguments`: the arguments of a template are taken apart as they
  were printed

## Model

A string is the list of its characters.
-/

namespace SimpleRpc.Py

open SimpleRpc.Rpc

/-! ## Printing -/

/-- The first alternatives of the rule `type`. -/
inductive Builtin where
  | i8 | i16 | i32 | i64
  | v32 | v64

def Builtin.print : Builtin → List Char
  | .i8 => "rpc::i8".toList
  | .i16 => "rpc::i16".toList
  | .i32 => "rpc::i32".toList
  | .i64 => "rpc::i64".toList
  | .v32 => "rpc::v32".toList
  | .v64 => "rpc::v64".toList

mutual

/-- A parse tree of the rule `type`. -/
inductive TypeTree where
  | builtin (b : Builtin)
  | symbol (fullSymbol : List Char) (args : TypeTrees)

/-- The parse trees between `<` and `>`; there are none if the brackets are missing. -/
inductive TypeTrees where
  | nil
  | cons (type : TypeTree) (rest : TypeTrees)

end

/-- The names that `std_rename` knows. -/
def stdNames : List (List Char) :=
  ["pair".toList, "string".toList, "map".toList, "list".toList, "set".toList, "vector".toList,
    "unordered_map".toList, "unordered_set".toList]

def stdRename (t : List Char) : List Char :=
  if t ∈ stdNames then "std::".toList ++ t else t

mutual

/-- What the rule `type` returns. -/
def TypeTree.print : TypeTree → List Char
  | .builtin b => b.print
  | .symbol fullSymbol args => stdRename fullSymbol ++ args.print

/-- `["<" type {{ t += "<" + type }} ("," type {{ t += ", " + type }})* ">" {{ t += ">" }}]` -/
def TypeTrees.print : TypeTrees → List Char
  | .nil => []
  | .cons type rest => '<' :: (type.print ++ rest.printMore ++ ['>'])

/-- `("," type {{ t += ", " + type }})*` -/
def TypeTrees.printMore : TypeTrees → List Char
  | .nil => []
  | .cons type rest => ',' :: ' ' :: (type.print ++ rest.printMore)

end

/-! ## Taking apart -/

/-- The whitespace that `str.strip` removes. -/
def isSpace (c : Char) : Bool := c ∈ [' ', '\t', '\n', '\r', '\x0b', '\x0c']

/-- `s.strip()` -/
def strip (s : List Char) : List Char :=
  ((s.dropWhile isSpace).reverse.dropWhile isSpace).reverse

/-- The local variables of `template_split`. -/
structure Split where
  splt : List (List Char)
  level : Int
  sp : List Char

/-- One round of the loop of `template_split`. -/
def Split.step (st : Split) (c : Char) : Split :=
  let level := if c = '<' then st.level + 1 else if c = '>' then st.level - 1 else st.level
  if c = ',' ∧ level = 0 then ⟨st.splt ++ [strip st.sp], level, []⟩
  else ⟨st.splt, level, st.sp ++ [c]⟩

/-- `Marshal.template_split` -/
def templateSplit (typeStr : List Char) : List (List Char) :=
  let st := typeStr.foldl Split.step ⟨[], 0, []⟩
  if strip st.sp ≠ [] then st.splt ++ [strip st.sp] else st.splt

/-- `obj_t[obj_t.index("<") + 1:-1]` -/
def arguments (objT : List Char) : List Char := (objT.drop (objT.idxOf '<' + 1)).dropLast

/-- What `write_obj` and `read_obj` tell apart. -/
inductive Kind where
  | leaf (l : Leaf)
  | pair
  | map
  | sequence
  | set
  | struct
  deriving DecidableEq

/-- The tests on `obj_t` of `write_obj` and `read_obj`. -/
def kindOf (objT : List Char) : Kind :=
  if objT ∈ ["rpc::i8".toList, "i8".toList] then .leaf .i8
  else if objT ∈ ["rpc::i16".toList, "i16".toList] then .leaf .i16
  else if objT ∈ ["rpc::i32".toList, "i32".toList] then .leaf .i32
  else if objT ∈ ["rpc::i64".toList, "i64".toList] then .leaf .i64
  else if objT ∈ ["rpc::v32".toList, "v32".toList] then .leaf .v32
  else if objT ∈ ["rpc::v64".toList, "v64".toList] then .leaf .v64
  else if objT = "double".toList then .leaf .double
  else if objT ∈ ["std::string".toList, "string".toList] then .leaf .string
  else if "std::pair<".toList.isPrefixOf objT then .pair
  else if "std::map<".toList.isPrefixOf objT ∨ "std::unordered_map<".toList.isPrefixOf objT then
    .map
  else if "std::vector<".toList.isPrefixOf objT ∨ "std::list<".toList.isPrefixOf objT then
    .sequence
  else if "std::set<".toList.isPrefixOf objT ∨ "std::unordered_set<".toList.isPrefixOf objT then
    .set
  else .struct

/-! ## Meaning -/

def Builtin.leaf : Builtin → Leaf
  | .i8 => .i8
  | .i16 => .i16
  | .i32 => .i32
  | .i64 => .i64
  | .v32 => .v32
  | .v64 => .v64

mutual

/-- Types free of list, set and map types, so that Python can hash their objects. -/
def hashableTy : Ty → Bool
  | .leaf _ => true
  | .pair a b => hashableTy a && hashableTy b
  | .struct _ fields => hashableFields fields
  | _ => false

def hashableFields : Fields → Bool
  | .nil => true
  | .cons _ t rest => hashableTy t && hashableFields rest

end

/-- Names that the rule `type` gives another meaning. -/
def keywords : List (List Char) :=
  ["i8".toList, "i16".toList, "i32".toList, "i64".toList, "v32".toList, "v64".toList,
    "double".toList] ++ stdNames

/-- A `SYMBOL` that a struct can have as its name. -/
structure StructName (name : List Char) : Prop where
  nonempty : name ≠ []
  symbol : ∀ c ∈ name, c.isAlphanum = true ∨ c = '_'
  free : name ∉ keywords

/-- `Marshal.structs`: the fields of a struct with their type strings. -/
abbrev Structs := List Char → Option (List (List Char × List Char))

mutual

/-- The C++ type that a parse tree stands for, given the registered structs. -/
inductive Denotes (structs : Structs) : TypeTree → Ty → Prop where
  | builtin (b : Builtin) : Denotes structs (.builtin b) (.leaf b.leaf)
  | double {s} (hs : stdRename s = "double".toList) :
    Denotes structs (.symbol s .nil) (.leaf .double)
  | string {s} (hs : stdRename s = "std::string".toList) :
    Denotes structs (.symbol s .nil) (.leaf .string)
  | pair {s a b ta tb} (hs : stdRename s = "std::pair".toList) (ha : Denotes structs a ta)
    (hb : Denotes structs b tb) :
    Denotes structs (.symbol s (.cons a (.cons b .nil))) (.pair ta tb)
  | vector {s a ta} (hs : stdRename s = "std::vector".toList) (ha : Denotes structs a ta) :
    Denotes structs (.symbol s (.cons a .nil)) (.vector ta)
  | list {s a ta} (hs : stdRename s = "std::list".toList) (ha : Denotes structs a ta) :
    Denotes structs (.symbol s (.cons a .nil)) (.list ta)
  | set {s a ta} (hs : stdRename s = "std::set".toList) (ha : Denotes structs a ta)
    (hhash : hashableTy ta = true) : Denotes structs (.symbol s (.cons a .nil)) (.set ta)
  | map {s a b ta tb} (hs : stdRename s = "std::map".toList) (ha : Denotes structs a ta)
    (hb : Denotes structs b tb) (hhash : hashableTy ta = true) :
    Denotes structs (.symbol s (.cons a (.cons b .nil))) (.map ta tb)
  | unorderedSet {s a ta} (hs : stdRename s = "std::unordered_set".toList)
    (ha : Denotes structs a ta) (hhash : hashableTy ta = true) :
    Denotes structs (.symbol s (.cons a .nil)) (.unorderedSet ta)
  | unorderedMap {s a b ta tb} (hs : stdRename s = "std::unordered_map".toList)
    (ha : Denotes structs a ta) (hb : Denotes structs b tb) (hhash : hashableTy ta = true) :
    Denotes structs (.symbol s (.cons a (.cons b .nil))) (.unorderedMap ta tb)
  | struct {name : String} {decls fields} (hname : StructName name.toList)
    (hstruct : structs name.toList = some decls) (hnodup : (decls.map Prod.fst).Nodup)
    (hfields : DenoteFields structs decls fields) :
    Denotes structs (.symbol name.toList .nil) (.struct name fields)

/-- The fields that `emit_struct_python` registers. -/
inductive DenoteFields (structs : Structs) : List (List Char × List Char) → Fields → Prop where
  | nil : DenoteFields structs [] .nil
  | cons {name : String} {e t decls fields} (ht : Denotes structs e t)
    (hrest : DenoteFields structs decls fields) :
    DenoteFields structs ((name.toList, e.print) :: decls) (.cons name t fields)

end

/-! ## Splitting -/

/-- `template_split` does not split inside of the string. -/
def Inert (s : List Char) : Prop :=
  ∀ st : Split, 0 ≤ st.level → s.foldl Split.step st = ⟨st.splt, st.level, st.sp ++ s⟩

/-- `template_split` does not split inside of the string if it stands between brackets. -/
def Nested (s : List Char) : Prop :=
  ∀ st : Split, 0 < st.level → s.foldl Split.step st = ⟨st.splt, st.level, st.sp ++ s⟩

/-- Neither brackets nor commas. -/
def Plain (s : List Char) : Prop := ∀ c ∈ s, c ≠ '<' ∧ c ≠ '>' ∧ c ≠ ','

theorem plain_of_all {s : List Char}
    (hs : s.all (fun c => c != '<' && c != '>' && c != ',') = true) : Plain s := by
  intro c hc
  have := List.all_eq_true.mp hs c hc
  simpa [and_assoc] using this

theorem Plain.inert {s : List Char} (hs : Plain s) : Inert s := by
  intro st _
  induction s generalizing st with
  | nil => simp
  | cons c s ih =>
    obtain ⟨hlt, hgt, hcomma⟩ := hs c (by simp)
    have hstep : st.step c = ⟨st.splt, st.level, st.sp ++ [c]⟩ := by
      simp [Split.step, hlt, hgt, hcomma]
    rw [List.foldl_cons, hstep, ih (fun c hc => hs c (by simp [hc])) _ ‹_›]
    simp

theorem Inert.nested {s : List Char} (hs : Inert s) : Nested s :=
  fun st hlevel => hs st (by omega)

theorem Nested.append {s t : List Char} (hs : Nested s) (ht : Nested t) : Nested (s ++ t) := by
  intro st hlevel
  rw [List.foldl_append, hs st hlevel, ht ⟨st.splt, st.level, st.sp ++ s⟩ hlevel]
  simp

/-- A comma between brackets is no separator. -/
theorem nested_separator : Nested ", ".toList := by
  intro st hlevel
  have : st.level ≠ 0 := by omega
  simp [Split.step, this]

/-- Brackets around a nested string. -/
theorem Nested.template {name args : List Char} (hname : Plain name) (hargs : Nested args) :
    Inert (name ++ '<' :: (args ++ ['>'])) := by
  intro st hlevel
  have hopen : (⟨st.splt, st.level, st.sp ++ name⟩ : Split).step '<' =
      ⟨st.splt, st.level + 1, st.sp ++ name ++ ['<']⟩ := by simp [Split.step]
  rw [List.foldl_append, hname.inert st hlevel, List.foldl_cons, hopen, List.foldl_append,
    hargs _ (show 0 < st.level + 1 by omega)]
  simp [Split.step]

/-- No whitespace at either end. -/
structure Trimmed (s : List Char) : Prop where
  first : ∃ c cs, s = c :: cs ∧ isSpace c = false
  last : ∃ cs c, s = cs ++ [c] ∧ isSpace c = false

theorem Trimmed.ne_nil {s : List Char} (hs : Trimmed s) : s ≠ [] := by
  obtain ⟨c, cs, rfl, -⟩ := hs.first
  simp

theorem Trimmed.strip_eq {s : List Char} (hs : Trimmed s) : strip s = s := by
  have hfirst : s.dropWhile isSpace = s := by
    obtain ⟨c, cs, rfl, hc⟩ := hs.first
    simp [hc]
  have hlast : s.reverse.dropWhile isSpace = s.reverse := by
    obtain ⟨cs, c, rfl, hc⟩ := hs.last
    simp [hc]
  rw [strip, hfirst, hlast, List.reverse_reverse]

theorem Trimmed.strip_cons_space {s : List Char} (hs : Trimmed s) : strip (' ' :: s) = s := by
  rw [strip, List.dropWhile_cons_of_pos (by decide)]
  exact hs.strip_eq

/-- **Two arguments** are taken apart as they were printed. -/
theorem templateSplit_two {a b : List Char} (ha : Inert a) (hb : Inert b) (ha' : Trimmed a)
    (hb' : Trimmed b) : templateSplit (a ++ ", ".toList ++ b) = [a, b] := by
  have hloop : (a ++ ", ".toList ++ b).foldl Split.step ⟨[], 0, []⟩ = ⟨[a], 0, ' ' :: b⟩ := by
    rw [List.foldl_append, List.foldl_append, ha _ (Int.le_refl 0)]
    have hcomma : ", ".toList.foldl Split.step ⟨[], 0, [] ++ a⟩ = ⟨[a], 0, [' ']⟩ := by
      simp [Split.step, ha'.strip_eq]
    rw [hcomma, hb _ (Int.le_refl 0)]
    rfl
  simp only [templateSplit, hloop, hb'.strip_cons_space, if_pos hb'.ne_nil]
  rfl

/-- What stands between the brackets of a template. -/
theorem arguments_template {name args : List Char} (hname : Plain name) :
    arguments (name ++ '<' :: (args ++ ['>'])) = args := by
  have hidx : (name ++ '<' :: (args ++ ['>'])).idxOf '<' = name.length := by
    rw [List.idxOf_append_of_notMem fun hmem => (hname _ hmem).1 rfl]
    simp
  rw [arguments, hidx, List.drop_append, List.drop_of_length_le (by omega)]
  simp

/-! ## Printed types -/

theorem print_none {s name : List Char} (hs : stdRename s = name) :
    (TypeTree.symbol s .nil).print = name := by
  simp [TypeTree.print, TypeTrees.print, hs]

theorem print_one {s name : List Char} (hs : stdRename s = name) (a : TypeTree) :
    (TypeTree.symbol s (.cons a .nil)).print = name ++ '<' :: (a.print ++ ['>']) := by
  simp [TypeTree.print, TypeTrees.print, TypeTrees.printMore, hs]

theorem print_two {s name : List Char} (hs : stdRename s = name) (a b : TypeTree) :
    (TypeTree.symbol s (.cons a (.cons b .nil))).print =
      name ++ '<' :: ((a.print ++ ", ".toList ++ b.print) ++ ['>']) := by
  simp [TypeTree.print, TypeTrees.print, TypeTrees.printMore, hs]

theorem StructName.stdRename_eq {name : List Char} (hname : StructName name) :
    stdRename name = name := by
  have hnot : name ∉ stdNames := fun hmem => hname.free (List.mem_append_right _ hmem)
  simp only [stdRename, if_neg hnot]

theorem StructName.plain {name : List Char} (hname : StructName name) : Plain name := by
  intro c hc
  rcases hname.symbol c hc with h | rfl
  · refine ⟨?_, ?_, ?_⟩ <;> (rintro rfl; exact absurd h (by decide))
  · decide

theorem StructName.not_colon {name : List Char} (hname : StructName name) : ':' ∉ name := by
  intro hmem
  rcases hname.symbol _ hmem with h | h
  · exact absurd h (by decide)
  · exact absurd h (by decide)

theorem StructName.not_space {name : List Char} (hname : StructName name) {c : Char}
    (hc : c ∈ name) : isSpace c = false := by
  rcases hname.symbol c hc with h | rfl
  · by_contra hspace
    simp only [isSpace, Bool.not_eq_false, decide_eq_true_eq] at hspace
    simp only [List.mem_cons, List.not_mem_nil, or_false] at hspace
    rcases hspace with rfl | rfl | rfl | rfl | rfl | rfl <;> exact absurd h (by decide)
  · decide

theorem not_space_of_all {s : List Char} (hs : s.all (fun c => !isSpace c) = true) :
    ∀ c ∈ s, isSpace c = false := by
  intro c hc
  simpa using List.all_eq_true.mp hs c hc

theorem trimmed_of_not_space {s : List Char} (hne : s ≠ []) (hs : ∀ c ∈ s, isSpace c = false) :
    Trimmed s where
  first := by
    obtain ⟨c, cs, rfl⟩ := List.exists_cons_of_ne_nil hne
    exact ⟨c, cs, rfl, hs c (by simp)⟩
  last := ⟨s.dropLast, s.getLast hne, (List.dropLast_append_getLast hne).symm,
    hs _ (List.getLast_mem hne)⟩

/-- What the tests on a printed type find. -/
def kind : Ty → Kind
  | .leaf l => .leaf l
  | .pair _ _ => .pair
  | .vector _ | .list _ => .sequence
  | .set _ | .unorderedSet _ => .set
  | .map _ _ | .unorderedMap _ _ => .map
  | .struct _ _ => .struct

theorem StructName.kindOf_eq {name : List Char} (hname : StructName name) :
    kindOf name = .struct := by
  -- a struct name has no colon, unlike the `std` names
  have hpre : ∀ s : List Char, ':' ∈ s → s.isPrefixOf name = false := by
    intro s hs
    by_contra hpre
    rw [Bool.not_eq_false, List.isPrefixOf_iff_prefix] at hpre
    exact hname.not_colon (hpre.subset hs)
  have hne : ∀ s : List Char, ':' ∈ s → name ≠ s := by
    rintro s hs rfl
    exact hname.not_colon hs
  -- and is no word of the language
  have hkey : ∀ s ∈ keywords, name ≠ s := by
    rintro s hs rfl
    exact hname.free hs
  have hnot : ∀ s t : List Char, ':' ∈ s → t ∈ keywords → name ∉ [s, t] := by
    intro s t hs ht hmem
    rcases List.mem_pair.mp hmem with h | h
    · exact hne s hs h
    · exact hkey t ht h
  rw [kindOf, if_neg (hnot _ _ (by decide) (by decide)), if_neg (hnot _ _ (by decide) (by decide)),
    if_neg (hnot _ _ (by decide) (by decide)), if_neg (hnot _ _ (by decide) (by decide)),
    if_neg (hnot _ _ (by decide) (by decide)), if_neg (hnot _ _ (by decide) (by decide)),
    if_neg (hkey _ (by decide)), if_neg (hnot _ _ (by decide) (by decide))]
  simp only [hpre _ (show ':' ∈ "std::pair<".toList by decide),
    hpre _ (show ':' ∈ "std::map<".toList by decide),
    hpre _ (show ':' ∈ "std::unordered_map<".toList by decide),
    hpre _ (show ':' ∈ "std::vector<".toList by decide),
    hpre _ (show ':' ∈ "std::list<".toList by decide),
    hpre _ (show ':' ∈ "std::set<".toList by decide),
    hpre _ (show ':' ∈ "std::unordered_set<".toList by decide)]
  simp

/-- What is true of the strings that `rpcgen` prints. -/
structure Printed (s : List Char) (k : Kind) : Prop where
  inert : Inert s
  trimmed : Trimmed s
  kind : kindOf s = k

theorem printed_plain {s : List Char} {k : Kind} (hne : s ≠ []) (hplain : Plain s)
    (hspace : ∀ c ∈ s, isSpace c = false) (hkind : kindOf s = k) : Printed s k :=
  ⟨hplain.inert, trimmed_of_not_space hne hspace, hkind⟩

/-- The name of a template. -/
structure TemplateName (name : List Char) (k : Kind) : Prop where
  nonempty : name ≠ []
  plain : Plain name
  not_space : ∀ c ∈ name, isSpace c = false
  kind : ∀ rest, kindOf (name ++ '<' :: rest) = k

theorem TemplateName.printed {name args : List Char} {k : Kind} (hname : TemplateName name k)
    (hargs : Nested args) : Printed (name ++ '<' :: (args ++ ['>'])) k := by
  refine ⟨hargs.template hname.plain, ⟨?_, ?_⟩, hname.kind _⟩
  · obtain ⟨c, cs, rfl⟩ := List.exists_cons_of_ne_nil hname.nonempty
    exact ⟨c, _, rfl, hname.not_space c (by simp)⟩
  · exact ⟨name ++ '<' :: args, '>', by simp, by decide⟩

theorem Printed.one {a : TypeTree} {ka k : Kind} (ha : Printed a.print ka) {s name : List Char}
    (hs : stdRename s = name) (hname : TemplateName name k) :
    Printed (TypeTree.symbol s (.cons a .nil)).print k := by
  rw [print_one hs]
  exact hname.printed ha.inert.nested

theorem Printed.two {a b : TypeTree} {ka kb k : Kind} (ha : Printed a.print ka)
    (hb : Printed b.print kb) {s name : List Char} (hs : stdRename s = name)
    (hname : TemplateName name k) :
    Printed (TypeTree.symbol s (.cons a (.cons b .nil))).print k := by
  rw [print_two hs]
  exact hname.printed
    ((ha.inert.nested.append nested_separator).append hb.inert.nested)

theorem templateName_pair : TemplateName "std::pair".toList .pair :=
  ⟨by decide, plain_of_all (by decide), not_space_of_all (by decide), fun rest => by simp [kindOf]⟩

theorem templateName_vector : TemplateName "std::vector".toList .sequence :=
  ⟨by decide, plain_of_all (by decide), not_space_of_all (by decide), fun rest => by simp [kindOf]⟩

theorem templateName_list : TemplateName "std::list".toList .sequence :=
  ⟨by decide, plain_of_all (by decide), not_space_of_all (by decide), fun rest => by simp [kindOf]⟩

theorem templateName_set : TemplateName "std::set".toList .set :=
  ⟨by decide, plain_of_all (by decide), not_space_of_all (by decide), fun rest => by simp [kindOf]⟩

theorem templateName_unordered_set : TemplateName "std::unordered_set".toList .set :=
  ⟨by decide, plain_of_all (by decide), not_space_of_all (by decide), fun rest => by simp [kindOf]⟩

theorem templateName_map : TemplateName "std::map".toList .map :=
  ⟨by decide, plain_of_all (by decide), not_space_of_all (by decide), fun rest => by simp [kindOf]⟩

theorem templateName_unordered_map : TemplateName "std::unordered_map".toList .map :=
  ⟨by decide, plain_of_all (by decide), not_space_of_all (by decide), fun rest => by simp [kindOf]⟩

/-- **Printed types** pass through `template_split`, and their kind is found. -/
theorem Denotes.printed {structs : Structs} : {e : TypeTree} → {t : Ty} → Denotes structs e t →
    Printed e.print (kind t)
  | _, _, .builtin b => by
    cases b <;> exact printed_plain (by decide) (plain_of_all (by decide)) (not_space_of_all (by decide))
      (by decide)
  | _, _, .double hs => by
    rw [print_none hs]
    exact printed_plain (by decide) (plain_of_all (by decide)) (not_space_of_all (by decide))
      (by decide)
  | _, _, .string hs => by
    rw [print_none hs]
    exact printed_plain (by decide) (plain_of_all (by decide)) (not_space_of_all (by decide))
      (by decide)
  | _, _, .pair hs ha hb => ha.printed.two hb.printed hs templateName_pair
  | _, _, .vector hs ha => ha.printed.one hs templateName_vector
  | _, _, .list hs ha => ha.printed.one hs templateName_list
  | _, _, .set hs ha _ => ha.printed.one hs templateName_set
  | _, _, .unorderedSet hs ha _ => ha.printed.one hs templateName_unordered_set
  | _, _, .map hs ha hb _ => ha.printed.two hb.printed hs templateName_map
  | _, _, .unorderedMap hs ha hb _ => ha.printed.two hb.printed hs templateName_unordered_map
  | _, _, .struct hname _ _ _ => by
    rw [print_none hname.stdRename_eq]
    exact printed_plain hname.nonempty hname.plain (fun _ => hname.not_space) hname.kindOf_eq

/-- The argument of a template is found. -/
theorem arguments_one {s name : List Char} {k : Kind} (hname : TemplateName name k)
    (hs : stdRename s = name) (a : TypeTree) :
    arguments (TypeTree.symbol s (.cons a .nil)).print = a.print := by
  rw [print_one hs, arguments_template hname.plain]

/-- Both arguments of a template are found. -/
theorem templateSplit_arguments {s name : List Char} {k ka kb : Kind} (hname : TemplateName name k)
    (hs : stdRename s = name) {a b : TypeTree} (ha : Printed a.print ka)
    (hb : Printed b.print kb) :
    templateSplit (arguments (TypeTree.symbol s (.cons a (.cons b .nil))).print) =
      [a.print, b.print] := by
  rw [print_two hs, arguments_template hname.plain,
    templateSplit_two ha.inert hb.inert ha.trimmed hb.trimmed]

end SimpleRpc.Py
