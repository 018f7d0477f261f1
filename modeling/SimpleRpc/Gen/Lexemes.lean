import SimpleRpc.Gen.Layout

/-!
# Lexemes of the Sources of Services (`rpcgen.py`, `yapps/runtime.py`)

What type a text has depends on the types that are asked for: `fast` is an attribute where
attributes are asked for, and a symbol elsewhere. `ReadAs` says which type a text is given, for the
scanner and from it. Over it a parser can be followed along a list of lexemes in both directions:
what it does on a text that spells them, and which ones it has taken when it returned.

## Layers

- **Lexemes**: `ReadAs`, `reads_of_token` and `token_of_reads`
- **Texts**: `Spells`, lexemes with layout between them
- **Forward**: `Runs`, what a parser does in front of lexemes
- **Backward**: `Takes`, the lexemes a parser has taken

## Main results

- `bestMatch_symbol_longest`: a symbol is read only where no fixed text is as long
- `reads_of_token`, `token_of_reads`: the scanner reads a lexeme under the types where `ReadAs` holds
- `runs_whileDo`, `takes_whileDo`: the loops of the parser, along the items of a list
-/

namespace SimpleRpc.Gen

open SimpleRpc.Lib
open SimpleRpc.Lib.Parser (peek scan whileDo)

/-! ## Lexemes -/

/-- A token by its type and text. -/
structure Lexeme where
  type : TokType
  text : List Char
  deriving DecidableEq, Repr

def lexemeOf (tok : Token TokType (List Char)) : Lexeme := ⟨tok.type, tok.value⟩

/-- The text has the form of its type. -/
def Lexeme.Formed (l : Lexeme) : Prop :=
  l.type ∉ ignore ∧
    ((l.type, .literal l.text) ∈ patterns ∨
      l.type = .eof ∧ (l.text = [] ∨ l.text = ['%', '%']) ∨
      l.type = .symbol ∧ isSymbol (String.ofList l.text) = true)

/-- Among `types` the lexeme is read under its type. A symbol must not be one of the fixed texts. -/
structure ReadAs (types : List TokType) (l : Lexeme) : Prop where
  mem : l.type ∈ types
  formed : l.Formed
  free : l.type = .symbol → ∀ t ∈ types, (t, .literal l.text) ∉ patterns

theorem ReadAs.mono {types types' : List TokType} {l : Lexeme} (h : ReadAs types l)
    (hsub : types' ⊆ types) (hmem : l.type ∈ types') : ReadAs types' l :=
  ⟨hmem, h.formed, fun hl t ht => h.free hl t (hsub ht)⟩

/-- The lexeme ends in front of `z`: the end of the text, or a word with no symbol character behind
    it. -/
structure Stops (text z : List Char) : Prop where
  last : text = [] → z = []
  word : (text.head?.any isSymbolStart) = true → ∀ d ∈ z.head?, isSymbolChar d = false

/-! ## The longest match -/

theorem patterns_eq : patterns = patterns.dropLast ++ [(.symbol, .symbol)] := by decide

theorem symbol_notMem : ∀ x ∈ patterns.dropLast, x.1 ≠ .symbol := by decide

theorem pattern_kind : ∀ x ∈ patterns, x.1 ∉ ignore →
    x.2 = .literal x.2.text ∨ x.2 = .eof ∨ x.2 = .symbol := by decide

theorem literal_ne_symbol {t : TokType} {text : List Char} (h : (t, .literal text) ∈ patterns) :
    t ≠ .symbol := by
  rintro rfl
  cases pattern_unique h (show (TokType.symbol, Pattern.symbol) ∈ patterns by decide)

/-- **The symbol comes last**: where it is the best match, it is longer than every other match. -/
theorem bestMatch_symbol_longest {restrict : List TokType} {s : List Char} {n m : Nat}
    {t : TokType} {p : Pattern} (hbest : bestMatch restrict s = some (.symbol, n))
    (hmem : (t, p) ∈ patterns) (ht : t ≠ .symbol) (hadm : Admitted restrict t)
    (hmatch : p.matchLen s = some m) : m < n := by
  -- the candidates of the other patterns stand in front of that of the symbol
  obtain ⟨front, hfront⟩ : ∃ front, front = patterns.dropLast.filterMap fun c =>
      if Admitted restrict c.1 then (c.2.matchLen s).map fun n => (c.1, n) else none := ⟨_, rfl⟩
  have hcands : candidates restrict s = patterns.filterMap fun c =>
      if Admitted restrict c.1 then (c.2.matchLen s).map fun n => (c.1, n) else none := rfl
  have hcand : candidates restrict s = front ∨
      ∃ k, candidates restrict s = front ++ [(.symbol, k)] := by
    rw [hcands, patterns_eq, List.filterMap_append, hfront]
    by_cases hsym : Admitted restrict .symbol
    · cases hlen : Pattern.symbol.matchLen s with
      | none => exact .inl (by simp [hlen])
      | some k => exact .inr ⟨k, by simp [hsym, hlen]⟩
    · exact .inl (by simp [hsym])
  have hnot : ∀ k, (TokType.symbol, k) ∉ front := by
    intro k hk
    rw [hfront] at hk
    obtain ⟨⟨t', p'⟩, hmem', heq⟩ := List.mem_filterMap.mp hk
    by_cases hadm' : Admitted restrict t'
    · simp only [hadm', if_true, Option.map_eq_some_iff, Prod.mk.injEq] at heq
      obtain ⟨_, -, rfl, -⟩ := heq
      exact symbol_notMem _ hmem' rfl
    · simp [hadm'] at heq
  have hother : (t, m) ∈ front := by
    have hin := mem_candidates.mpr ⟨p, hmem, hadm, hmatch⟩
    obtain h | ⟨k, h⟩ := hcand
    · rwa [h] at hin
    · rw [h, List.mem_append] at hin
      obtain hin | hin := hin
      · exact hin
      · cases List.mem_singleton.mp hin
        exact absurd rfl ht
  rw [bestMatch] at hbest
  obtain h | ⟨k, h⟩ := hcand
  · -- the symbol has no candidate
    rw [h] at hbest
    exact absurd (List.argmax_mem hbest) (hnot n)
  · -- the symbol is the last candidate, and wins over a shorter one only
    rw [h, List.argmax_concat] at hbest
    cases hmax : List.argmax Prod.snd front with
    | none =>
      rw [List.argmax_eq_none.mp hmax] at hother
      cases hother
    | some best =>
      have hle : m ≤ best.2 := List.le_of_mem_argmax hother hmax
      simp only [hmax] at hbest
      split at hbest
      · cases hbest
        omega
      · cases hbest
        exact absurd (List.argmax_mem hmax) (hnot n)

/-! ## From the scanner -/

theorem isSymbol_ofList {c : Char} {cs : List Char} :
    isSymbol (String.ofList (c :: cs)) = true ↔
      isSymbolStart c = true ∧ ∀ d ∈ cs, isSymbolChar d = true := by
  rw [isSymbol, String.toList_ofList]
  simp only [Bool.and_eq_true, List.all_eq_true]
  rfl

/-- **From the scanner**: a token is read as `ReadAs` says. -/
theorem reads_of_token {types : List TokType} {s rest : List Char}
    {tok : Token TokType (List Char)} (hne : types ≠ [])
    (h : token types s = some (tok, rest)) : ReadAs types (lexemeOf tok) := by
  obtain ⟨-, hnot, hbest, -⟩ := token_inv h
  obtain ⟨⟨p, hmem, hadm, hmatch⟩, -⟩ := bestMatch_inv hbest
  -- ignored types apart, only what is asked for is admitted
  have hin : tok.type ∈ types := by
    obtain hnil | hin | hig := hadm
    · exact absurd hnil hne
    · exact hin
    · exact absurd hig hnot
  refine ⟨hin, ⟨hnot, ?_⟩, ?_⟩
  · -- the type goes with the text
    by_cases hnil : tok.value = []
    · rw [hnil] at hmatch
      obtain ⟨rfl, -⟩ := matchLen_eq_zero hmem hmatch
      exact .inr (.inl ⟨type_unique hmem (by decide), .inl hnil⟩)
    · -- a literal, the end, or a symbol
      obtain ⟨hp, htext⟩ | ⟨rfl, c, cs, htext, hstart, hall, -⟩ := found_text hmem hnot hmatch hnil
      · obtain hlit | rfl | rfl := pattern_kind _ hmem hnot
        · refine .inl ?_
          rw [lexemeOf, htext]
          exact hlit ▸ hmem
        · exact .inr (.inl ⟨type_unique hmem (by decide), .inr htext⟩)
        · exact absurd rfl hp
      · refine .inr (.inr ⟨type_unique hmem (by decide), ?_⟩)
        rw [lexemeOf, htext, isSymbol_ofList]
        exact ⟨hstart, hall⟩
  · intro hsym t ht hlit
    -- the fixed text would be as long as the symbol
    have hsym' : tok.type = .symbol := hsym
    rw [hsym'] at hbest
    have hstarts : tok.value <+: tok.value ++ rest := List.prefix_append _ _
    have hlt := bestMatch_symbol_longest hbest hlit (literal_ne_symbol hlit) (.inr (.inl ht))
      (show (Pattern.literal tok.value).matchLen _ = some tok.value.length from if_pos hstarts)
    exact absurd hlt (lt_irrefl _)

/-! ## To the scanner -/

theorem text_injective : ∀ x ∈ patterns, ∀ y ∈ patterns, x.1 ∉ ignore → y.1 ∉ ignore →
    x.2 ≠ .symbol → y.2 ≠ .symbol → x.2.text = y.2.text → x.1 = y.1 := by
  decide +kernel

/-- The pattern of a formed lexeme finds it. -/
theorem Lexeme.Formed.matchLen {l : Lexeme} {z : List Char} (h : l.Formed)
    (hz : Stops l.text z) :
    ∃ p, (l.type, p) ∈ patterns ∧ p.matchLen (l.text ++ z) = some l.text.length ∧
      (p ≠ .symbol → l.text ≠ [] → p.text = l.text) := by
  obtain ⟨-, hlit | ⟨heof, htext⟩ | ⟨hsym, htext⟩⟩ := h
  · -- a literal
    exact ⟨_, hlit, if_pos (List.prefix_append _ _), fun _ _ => rfl⟩
  · -- the end
    refine ⟨.eof, by rw [heof]; decide, ?_, ?_⟩
    · obtain htext | htext := htext
      · rw [hz.last htext, htext]
        rfl
      · rw [htext]
        simp [Pattern.matchLen]
    · intro _ hne
      obtain htext | htext := htext
      · exact absurd htext hne
      · exact htext.symm
  · -- a symbol, which ends where the lexeme does
    refine ⟨.symbol, by rw [hsym]; decide, ?_, fun hne => absurd rfl hne⟩
    cases hl : l.text with
    | nil =>
      rw [hl] at htext
      cases htext
    | cons c cs =>
      rw [hl, isSymbol_ofList] at htext
      have hrun : (cs ++ z).takeWhile isSymbolChar = cs := by
        have hend := hz.word (by rw [hl]; exact htext.1)
        rw [List.takeWhile_append_of_pos htext.2]
        cases z with
        | nil => simp
        | cons d z => simp [hend d rfl]
      rw [List.cons_append, Pattern.matchLen, if_pos htext.1, hrun]
      rfl

theorem Lexeme.Formed.head {l : Lexeme} {c : Char} {cs : List Char} (h : l.Formed)
    (hl : l.text = c :: cs) : isLayoutHead c = false := by
  by_contra hc
  rw [Bool.not_eq_false] at hc
  obtain ⟨p, hmem, hmatch, -⟩ := h.matchLen (z := []) ⟨fun _ => rfl, nofun⟩
  rw [hl] at hmatch
  exact h.1 (matchLen_layoutHead hmem hc hmatch (by simp))

/-- What starts like a word is one. -/
theorem Lexeme.Formed.word {l : Lexeme} {c : Char} {cs : List Char} (h : l.Formed)
    (hl : l.text = c :: cs) (hc : isSymbolStart c = true) : ∀ d ∈ cs, isSymbolChar d = true := by
  obtain ⟨hnot, hlit | ⟨-, htext⟩ | ⟨-, htext⟩⟩ := h
  · have hall := text_of_word _ hlit hnot nofun (by simpa [Pattern.text, hl] using hc)
    rw [Pattern.text, hl] at hall
    exact fun d hd => List.all_eq_true.mp hall d (List.mem_cons_of_mem c hd)
  · rw [hl] at htext
    obtain htext | htext := htext
    · cases htext
    · cases htext
      exact absurd hc (by decide)
  · rw [hl, isSymbol_ofList] at htext
    exact htext.2

/-- The one text of a pattern is no longer than a lexeme that stops where the lexeme does. -/
theorem text_length_le {l : Lexeme} {z : List Char} {t : TokType} {p : Pattern} (h : l.Formed)
    (hz : Stops l.text z) (hne : l.text ≠ []) (hmem : (t, p) ∈ patterns) (ht : t ∉ ignore)
    (hp : p ≠ .symbol) (hstarts : p.text <+: l.text ++ z) : p.text.length ≤ l.text.length := by
  by_contra hlong
  obtain ⟨c, cs, hl⟩ := List.exists_cons_of_ne_nil hne
  -- the text goes on behind the lexeme
  obtain ⟨u, hu⟩ := List.prefix_of_prefix_length_le (List.prefix_append l.text z) hstarts (by omega)
  obtain ⟨d, u, rfl⟩ : ∃ d u', u = d :: u' := by
    cases u with
    | nil => simp [← hu] at hlong
    | cons d u => exact ⟨d, u, rfl⟩
  by_cases hc : isSymbolStart c = true
  · -- a word: the next character would be one of it
    have hall := text_of_word _ hmem ht hp (by simpa [← hu, hl] using hc)
    have hchar : isSymbolChar d = true := List.all_eq_true.mp hall d (by simp [← hu])
    rw [← hu, List.prefix_append_right_inj] at hstarts
    obtain ⟨z, rfl⟩ := hstarts
    rw [hz.word (by simpa [hl] using hc) d rfl] at hchar
    cases hchar
  · -- a fixed text: none is the front of another one
    obtain ⟨q, hq, hmatch, htext⟩ := h.matchLen hz
    have hq' : q ≠ .symbol := by
      rintro rfl
      obtain ⟨c', cs', heq, hstart, -⟩ := matchLen_symbol_inv hmatch
      rw [hl] at heq
      cases heq
      exact hc hstart
    have hsame := text_prefix_free _ hq _ hmem h.1 ht hq' hp
      (by rw [htext hq' hne, ← hu]; exact List.prefix_append _ _)
    rw [htext hq' hne, ← hu] at hsame
    simpa using congrArg List.length hsame

/-- No match is longer than a lexeme that stops. -/
theorem matchLen_le_of_stops {l : Lexeme} {z : List Char} {t : TokType} {p : Pattern} {m : Nat}
    (h : l.Formed) (hz : Stops l.text z) (hne : l.text ≠ []) (hmem : (t, p) ∈ patterns)
    (hmatch : p.matchLen (l.text ++ z) = some m) : t ∉ ignore ∧ m ≤ l.text.length := by
  obtain ⟨c, cs, hl⟩ := List.exists_cons_of_ne_nil hne
  have hc := h.head hl
  have ht : t ∉ ignore := by
    intro ht
    rw [hl, List.cons_append] at hmatch
    obtain ⟨-, hspace⟩ | ⟨-, rfl⟩ | ⟨-, rfl⟩ := ignored_head hmem ht hmatch
    · rw [isLayoutHead_of_isSpace hspace] at hc
      cases hc
    · exact absurd hc (by decide)
    · exact absurd hc (by decide)
  refine ⟨ht, ?_⟩
  obtain hlit | rfl | rfl := pattern_kind _ hmem ht
  · -- a literal
    dsimp only at hlit
    rw [hlit] at hmatch
    obtain ⟨hstarts, rfl⟩ := matchLen_literal_inv hmatch
    exact text_length_le h hz hne hmem ht (by rw [hlit]; nofun) hstarts
  · -- the end
    obtain ⟨-, rfl⟩ | ⟨hstarts, rfl⟩ := matchLen_eof_inv hmatch
    · exact Nat.zero_le _
    · exact text_length_le h hz hne hmem ht nofun hstarts
  · -- a symbol
    obtain ⟨d, s, heq, hstart, rfl⟩ := matchLen_symbol_inv hmatch
    rw [hl, List.cons_append] at heq
    obtain ⟨rfl, rfl⟩ := List.cons.inj heq
    have hword := h.word hl hstart
    rw [List.takeWhile_append_of_pos hword]
    cases z with
    | nil => simp [hl]
    | cons d z => simp [hl, hz.word (by simpa [hl] using hstart) d rfl]

theorem bestMatch_nil {types : List TokType} (h : .eof ∈ types) :
    bestMatch types [] = some (.eof, 0) := by
  refine bestMatch_of_longest (p := .eof) (by decide) (.inr (.inl h)) rfl fun t' p' m hmem hm _ => ?_
  have hle := Pattern.matchLen_le hm
  obtain rfl : m = 0 := by simpa using hle
  obtain ⟨rfl, -⟩ := matchLen_eq_zero hmem hm
  exact ⟨type_unique hmem (by decide), rfl⟩

/-- The best match of a lexeme that is asked for. -/
theorem bestMatch_of_reads {types : List TokType} {l : Lexeme} {z : List Char}
    (h : ReadAs types l) (hz : Stops l.text z) :
    bestMatch types (l.text ++ z) = some (l.type, l.text.length) := by
  by_cases hne : l.text = []
  · -- the end
    rw [hne, hz.last hne]
    obtain ⟨hmem, ⟨-, hlit | ⟨heof, -⟩ | ⟨-, htext⟩⟩, -⟩ := h
    · rw [hne] at hlit
      exact absurd rfl (literal_ne_nil _ hlit)
    · rw [heof] at hmem ⊢
      exact bestMatch_nil hmem
    · rw [hne] at htext
      cases htext
  obtain ⟨p, hmem, hmatch, htext⟩ := h.formed.matchLen hz
  have hadm : Admitted types l.type := .inr (.inl h.mem)
  cases hbest : bestMatch types (l.text ++ z) with
  | none =>
    -- there is a match, so there is a best one
    have hcand := mem_candidates.mpr ⟨p, hmem, hadm, hmatch⟩
    rw [List.argmax_eq_none.mp hbest] at hcand
    cases hcand
  | some best =>
    obtain ⟨t', n⟩ := best
    obtain ⟨⟨p', hmem', hadm', hmatch'⟩, hmax⟩ := bestMatch_inv hbest
    obtain ⟨ht', hle⟩ := matchLen_le_of_stops h.formed hz hne hmem' hmatch'
    obtain rfl : n = l.text.length := le_antisymm hle (hmax _ _ _ hmem hadm hmatch)
    have hin : t' ∈ types := by
      obtain rfl | hin | hig := hadm'
      · exact absurd h.mem (List.not_mem_nil)
      · exact hin
      · exact absurd hig ht'
    -- of two matches of this length, the one of a fixed text is taken
    obtain ⟨hp', htext'⟩ | ⟨rfl, -⟩ := found_text hmem' ht' hmatch' hne
    · by_cases hp : p = .symbol
      · subst hp
        have hsym : l.type = .symbol := type_unique hmem (by decide)
        obtain hlit | rfl | rfl := pattern_kind _ hmem' ht'
        · -- a literal with the text of the symbol
          exact absurd (by rw [htext']; exact hlit ▸ hmem') (h.free hsym t' hin)
        · -- `%%` is no symbol
          obtain ⟨c, cs, hsplit, hstart, -⟩ := matchLen_symbol_inv hmatch
          rw [htext'] at hsplit
          cases hsplit
          exact absurd hstart (by decide)
        · exact absurd rfl hp'
      · -- two fixed texts are one
        have hsame : t' = l.type := text_injective _ hmem' _ hmem ht' h.formed.1 hp' hp
          (by rw [htext hp hne, htext'])
        rw [hsame]
    · -- the best match is a symbol
      obtain rfl : t' = .symbol := type_unique hmem' (by decide)
      by_cases hsym : l.type = .symbol
      · rw [hsym]
      · exact absurd (bestMatch_symbol_longest hbest hmem hsym hadm hmatch) (lt_irrefl _)

/-- **To the scanner**: behind layout, a lexeme that is asked for is the next token. -/
theorem token_of_reads {types : List TokType} {l : Lexeme} {g z : List Char}
    (hg : Closed g) (h : ReadAs types l) (hz : Stops l.text z) :
    token types (g ++ (l.text ++ z)) = some (⟨g, l.type, l.text⟩, z) := by
  rw [token_closed types hg, token_of_found (bestMatch_of_reads h hz) h.formed.1]
  simp [behind]

/-! ## Texts -/

/-- The text starts with the lexemes, each behind some layout. -/
def Spells : List Lexeme → List Char → Prop
  | [], _ => True
  | l :: ls, s => ∃ g z, Closed g ∧ s = g ++ (l.text ++ z) ∧ Stops l.text z ∧ Spells ls z

/-- The scanner is in front of the lexemes `ls`. If it holds the first one back, `types` are among
    the types it was read for. -/
def Ready (types : List TokType) : List Lexeme → Scanner TokType (List Char) (List Char) → Prop
  | ls, ⟨input, none, _⟩ => Spells ls input
  | [], ⟨_, some _, _⟩ => False
  | l :: ls, ⟨input, some held, lastTypes⟩ =>
    held = (l.type, l.text) ∧ types ⊆ lastTypes ∧ Spells ls input

theorem Ready.mono {types types' : List TokType} {ls : List Lexeme}
    {s : Scanner TokType (List Char) (List Char)} (h : Ready types ls s) (hsub : types' ⊆ types) :
    Ready types' ls s := by
  obtain ⟨input, lastToken, lastTypes⟩ := s
  cases lastToken with
  | none => exact h
  | some held =>
    cases ls with
    | nil => exact h
    | cons l ls => exact ⟨h.1, fun t ht => h.2.1 (hsub ht), h.2.2⟩

/-- A parser in front of `ls` returns `a` in front of `ls'`. The types tell what may be asked about
    a lexeme that is held back, before and after. -/
def Runs {α : Type} (p : Rpc α) (types : List TokType) (ls : List Lexeme) (a : α)
    (types' : List TokType) (ls' : List Lexeme) : Prop :=
  ∀ s, Ready types ls s → ∃ log s', p.run token s = some (a, log, s') ∧ Ready types' ls' s'

section

variable {α β : Type} {types types' types'' : List TokType} {ls ls' ls'' : List Lexeme}

theorem runs_pure (a : α) (hsub : types' ⊆ types) : Runs (pure a) types ls a types' ls :=
  fun s hs => ⟨[], s, rfl, hs.mono hsub⟩

theorem Runs.bind {p : Rpc α} {f : α → Rpc β} {a : α} {b : β} (h : Runs p types ls a types' ls')
    (hf : Runs (f a) types' ls' b types'' ls'') : Runs (p >>= f) types ls b types'' ls'' := by
  intro s hs
  obtain ⟨log, s₁, hrun, hs₁⟩ := h s hs
  obtain ⟨log', s₂, hrun', hs₂⟩ := hf s₁ hs₁
  exact ⟨log ++ log', s₂, Parser.run_bind_of_eq hrun hrun', hs₂⟩

theorem Runs.weaken (types : List TokType) {p : Rpc α} {a : α} {more : List TokType}
    (h : Runs p types ls a types' ls') (hsub : types ⊆ more) : Runs p more ls a types' ls' :=
  fun s hs => h s (hs.mono hsub)

theorem Runs.forget {p : Rpc α} {a : α} (h : Runs p types ls a types' ls') (hsub : types'' ⊆ types') :
    Runs p types ls a types'' ls' := by
  intro s hs
  obtain ⟨log, s', hrun, hs'⟩ := h s hs
  exact ⟨log, s', hrun, hs'.mono hsub⟩

/-- The next type is told, and its token held back. -/
theorem runs_peek {l : Lexeme} (h : ReadAs types l) :
    Runs (peek types) types (l :: ls) l.type types (l :: ls) := by
  rintro ⟨input, lastToken, lastTypes⟩ hs
  cases lastToken with
  | none =>
    obtain ⟨g, z, hg, rfl, hz, hrest⟩ := hs
    have htok := token_of_reads hg h hz
    refine ⟨[⟨types, ⟨g, l.type, l.text⟩⟩], ⟨z, some (l.type, l.text), types⟩, ?_, rfl, fun _ h => h,
      hrest⟩
    simp [peek, Parser.run, Scanner.ask, Scanner.peek, htok]
  | some held =>
    obtain ⟨rfl, hsub, hrest⟩ := hs
    refine ⟨[], ⟨input, some (l.type, l.text), lastTypes⟩, ?_, rfl, hsub, hrest⟩
    have hno : ¬ (lastTypes ≠ [] ∧ ∃ t ∈ types, t ∉ lastTypes) := by
      rintro ⟨-, t, ht, hnot⟩
      exact hnot (hsub ht)
    simp only [peek, Parser.run, Scanner.ask, Scanner.peek, if_neg hno]
    rfl

/-- The next token is passed; afterwards any types may be asked for. -/
theorem runs_scan (next : List TokType) {l : Lexeme} (h : l.Formed) (hmem : l.type ∈ types) :
    Runs (scan l.type) types (l :: ls) l.text next ls := by
  rintro ⟨input, lastToken, lastTypes⟩ hs
  cases lastToken with
  | none =>
    obtain ⟨g, z, hg, rfl, hz, hrest⟩ := hs
    have hread : ReadAs [l.type] l := ⟨List.mem_singleton_self _, h, fun hsym t ht hlit => by
      rw [List.mem_singleton.mp ht, hsym] at hlit
      exact literal_ne_symbol hlit rfl⟩
    have htok := token_of_reads hg hread hz
    refine ⟨[⟨[l.type], ⟨g, l.type, l.text⟩⟩], ⟨z, none, lastTypes⟩, ?_, hrest⟩
    simp [scan, Parser.run, Scanner.ask, Scanner.scan, htok]
  | some held =>
    obtain ⟨rfl, hsub, hrest⟩ := hs
    refine ⟨[], ⟨input, none, lastTypes⟩, ?_, hrest⟩
    have hno : ¬ (lastTypes ≠ [] ∧ l.type ∉ lastTypes) := fun hnot => hnot.2 (hsub hmem)
    simp only [scan, Parser.run, Scanner.ask, Scanner.scan, if_neg hno]
    simp

/-- `if self._peek(types) == t` -/
theorem runs_ifPeek {yes no : Rpc α} {t : TokType} {l : Lexeme} {a : α} (h : ReadAs types l)
    (hyes : l.type = t → Runs yes types (l :: ls) a types' ls')
    (hno : l.type ≠ t → Runs no types (l :: ls) a types' ls') :
    Runs (ifPeek types t yes no) types (l :: ls) a types' ls' := by
  refine (runs_peek h).bind ?_
  split
  · rename_i heq
    exact hyes heq
  · rename_i hne
    exact hno hne

/-- A loop over the items of a list: each starts with a token that continues the loop, and what
    follows the last one ends it. `follow` is what an item needs of the lexemes behind it. -/
theorem runs_whileDo {ι : Type} {p : β → Rpc β} {l : Lexeme} {rest : List Lexeme}
    (f : TokType → Bool) (lex : ι → List Lexeme) (step : β → ι → β) (follow : List Lexeme → Prop)
    (items : List ι) (hbody : ∀ x ∈ items, ∀ b ls, follow ls →
      Runs (p b) types (lex x ++ ls) (step b x) types ls)
    (hhead : ∀ x ∈ items, ∃ l ls, lex x = l :: ls ∧ ReadAs types l ∧ f l.type = true)
    (hitem : ∀ x ∈ items, ∀ ls, follow (lex x ++ ls)) (hrest : follow (l :: rest))
    (hend : ReadAs types l) (hf : f l.type = false) {fuel : Nat} (hfuel : items.length < fuel)
    (b : β) :
    Runs (whileDo (do return f (← peek types)) p fuel b) types
      (items.flatMap lex ++ l :: rest) (items.foldl step b) types (l :: rest) := by
  induction items generalizing fuel b with
  | nil =>
    -- the token behind the items ends the loop
    obtain ⟨fuel, rfl⟩ : ∃ k, fuel = k + 1 := ⟨fuel - 1, by simp at hfuel; omega⟩
    refine ((runs_peek hend).bind (runs_pure _ (fun _ h => h))).bind ?_
    rw [hf]
    exact runs_pure b fun _ h => h
  | cons x items ih =>
    -- the first item, and then the loop from there
    obtain ⟨fuel, rfl⟩ : ∃ k, fuel = k + 1 := ⟨fuel - 1, by simp at hfuel; omega⟩
    obtain ⟨m, ms, hlex, hread, hfm⟩ := hhead x (List.mem_cons_self ..)
    -- behind the item stands the next one, or the end
    have hnext : follow (items.flatMap lex ++ l :: rest) := by
      cases items with
      | nil => exact hrest
      | cons y items =>
        rw [List.flatMap_cons, List.append_assoc]
        exact hitem y (by simp) _
    have hfirst := hbody x (List.mem_cons_self ..) b _ hnext
    have hmore := ih (fun y hy => hbody y (List.mem_cons_of_mem x hy))
      (fun y hy => hhead y (List.mem_cons_of_mem x hy))
      (fun y hy => hitem y (List.mem_cons_of_mem x hy))
      (show items.length < fuel by simpa using hfuel) (step b x)
    rw [List.flatMap_cons, List.append_assoc]
    rw [hlex, List.cons_append] at hfirst ⊢
    refine ((runs_peek hread).bind (runs_pure _ (fun _ h => h))).bind ?_
    rw [hfm]
    exact hfirst.bind hmore

end

/-! ## Backward -/

/-- When the lexeme was read, `types` were among the types asked for. -/
def Seen (types : List TokType) (l : Lexeme) : Prop := ∃ more, types ⊆ more ∧ ReadAs more l

/-- The lexeme that is held back, if there is one. -/
def held (s : Scanner TokType (List Char) (List Char)) : List Lexeme :=
  match s.lastToken with
  | none => []
  | some (t, v) => [⟨t, v⟩]

/-- What is held back was read for the types that are remembered. -/
def Proper (s : Scanner TokType (List Char) (List Char)) : Prop :=
  ∀ t v, s.lastToken = some (t, v) → s.lastTypes ≠ [] ∧ ReadAs s.lastTypes ⟨t, v⟩

def logLexemes (log : List (Read TokType (List Char))) : List Lexeme :=
  log.map fun r => lexemeOf r.token

/-- Whenever the parser returns `a`, it has passed some lexemes `ls` and holds back `post`, with
    `Q a ls post`; `pre` was held back before. -/
def Takes {α : Type} (pre : List Lexeme) (p : Rpc α)
    (Q : α → List Lexeme → List Lexeme → Prop) : Prop :=
  ∀ s a log s', Proper s → held s = pre → p.run token s = some (a, log, s') →
    Proper s' ∧ ∃ ls, pre ++ logLexemes log = ls ++ held s' ∧ Q a ls (held s')

section

variable {α β : Type} {pre : List Lexeme}

theorem Takes.imp {p : Rpc α} {Q R : α → List Lexeme → List Lexeme → Prop} (h : Takes pre p Q)
    (hQR : ∀ a ls post, Q a ls post → R a ls post) : Takes pre p R := by
  intro s a log s' hs hpre hrun
  obtain ⟨hs', ls, hls, hQ⟩ := h s a log s' hs hpre hrun
  exact ⟨hs', ls, hls, hQR _ _ _ hQ⟩

theorem takes_fail {Q : α → List Lexeme → List Lexeme → Prop} : Takes pre (.fail : Rpc α) Q := by
  intro s a log s' _ _ hrun
  cases hrun

theorem takes_pure {a : α} {Q : α → List Lexeme → List Lexeme → Prop} (h : Q a [] pre) :
    Takes pre (pure a) Q := by
  intro s b log s' hs hpre hrun
  cases hrun
  exact ⟨hs, [], by simp [logLexemes, hpre], hpre ▸ h⟩

/-- What is held back before is the first of the lexemes. -/
theorem Takes.bind {p : Rpc α} {f : α → Rpc β} {Q : α → List Lexeme → List Lexeme → Prop}
    {R : β → List Lexeme → List Lexeme → Prop} (h : Takes pre p Q)
    (hf : ∀ a ls post, pre <+: ls ++ post → Q a ls post →
      Takes post (f a) fun b ls' post' => R b (ls ++ ls') post') : Takes pre (p >>= f) R := by
  intro s b log s' hs hpre hrun
  obtain ⟨a, log₁, s₁, log₂, hfirst, hsecond, rfl⟩ := Parser.run_bind hrun
  obtain ⟨hs₁, ls, hls, hQ⟩ := h s a log₁ s₁ hs hpre hfirst
  have hstarts : pre <+: ls ++ held s₁ := hls ▸ List.prefix_append _ _
  obtain ⟨hs', ls', hls', hR⟩ := hf a ls _ hstarts hQ s₁ b log₂ s' hs₁ rfl hsecond
  refine ⟨hs', ls ++ ls', ?_, hR⟩
  rw [logLexemes, List.map_append, ← List.append_assoc]
  rw [logLexemes] at hls hls'
  rw [hls, List.append_assoc, hls', List.append_assoc]

theorem takes_peek {types : List TokType} (hne : types ≠ []) :
    Takes pre (peek types) fun t ls post =>
      ls = [] ∧ ∃ l, post = [l] ∧ l.type = t ∧ Seen types l := by
  intro s t log s' hs hpre hrun
  obtain ⟨x, log₁, s₁, log₂, hask, hret, rfl⟩ := Parser.run_ask hrun
  cases hret
  obtain ⟨tok, rest, hnone, htok, rfl, rfl, rfl⟩ | ⟨value, hsome, rfl, rfl, hsub⟩ :=
    Scanner.peek_eq_some hask
  · have hread := reads_of_token hne htok
    refine ⟨?_, [], ?_, rfl, lexemeOf tok, rfl, rfl, types, fun _ h => h, hread⟩
    · intro t v heq
      cases heq
      exact ⟨hne, hread⟩
    · simp [held, hnone, logLexemes, ← hpre, lexemeOf]
  · obtain ⟨hlast, hread⟩ := hs _ _ hsome
    refine ⟨hs, [], by simp [logLexemes, hpre], rfl, ⟨t, value⟩, ?_, rfl, s'.lastTypes, ?_, hread⟩
    · rw [held, hsome]
    · intro u hu
      by_contra hnot
      exact hsub ⟨hlast, u, hu, hnot⟩

theorem takes_scan {t : TokType} :
    Takes pre (scan t) fun v ls post => ls = [⟨t, v⟩] ∧ post = [] ∧ Lexeme.Formed ⟨t, v⟩ := by
  intro s v log s' hs hpre hrun
  obtain ⟨x, log₁, s₁, log₂, hask, hret, rfl⟩ := Parser.run_ask hrun
  cases hret
  obtain ⟨tok, rest, hnone, htok, htype, rfl, rfl, rfl⟩ | ⟨hsome, rfl, rfl, -⟩ :=
    Scanner.scan_eq_some hask
  · have hread := reads_of_token (List.cons_ne_nil _ _) htok
    have hlex : lexemeOf tok = ⟨t, tok.value⟩ := by rw [lexemeOf, htype]
    rw [hlex] at hread
    refine ⟨?_, [⟨t, tok.value⟩], ?_, rfl, ?_, hread.formed⟩
    · intro t v heq
      rw [hnone] at heq
      cases heq
    · simp [held, hnone, logLexemes, ← hpre, hlex]
    · simp [held, hnone]
  · refine ⟨nofun, [⟨t, v⟩], ?_, rfl, rfl, (hs _ _ hsome).2.formed⟩
    simp [held, hsome, logLexemes, ← hpre]

theorem takes_ifPeek {yes no : Rpc α} {types : List TokType} {t : TokType}
    {Q : α → List Lexeme → List Lexeme → Prop} (hne : types ≠ [])
    (hyes : ∀ l, pre <+: [l] → l.type = t → Seen types l → Takes [l] yes Q)
    (hno : ∀ l, pre <+: [l] → l.type ≠ t → Seen types l → Takes [l] no Q) :
    Takes pre (ifPeek types t yes no) Q := by
  refine (takes_peek hne).bind ?_
  rintro token ls post hstarts ⟨rfl, l, rfl, rfl, hseen⟩
  split
  · rename_i heq
    exact hyes l hstarts heq hseen
  · rename_i hneq
    exact hno l hstarts hneq hseen

/-- A loop takes the items of a list, and holds back the token that ended it. -/
theorem takes_whileDo {ι : Type} {types : List TokType} {p : β → Rpc β} (f : TokType → Bool)
    (lex : ι → List Lexeme) (step : β → ι → β) (hne : types ≠ [])
    (hbody : ∀ b l, Seen types l → f l.type = true →
      Takes [l] (p b) fun b' ls _ => ∃ x, b' = step b x ∧ ls = lex x) (fuel : Nat) (b : β) :
    Takes pre (whileDo (do return f (← peek types)) p fuel b) fun b' ls post =>
      ∃ items : List ι, b' = items.foldl step b ∧ ls = items.flatMap lex ∧
        ∃ l, post = [l] ∧ Seen types l ∧ f l.type = false := by
  induction fuel generalizing b pre with
  | zero => exact takes_fail
  | succ fuel ih =>
    have hcond : Takes pre (do return f (← peek types)) fun c ls post =>
        ls = [] ∧ ∃ l, post = [l] ∧ f l.type = c ∧ Seen types l := by
      refine (takes_peek hne).bind ?_
      rintro t ls post - ⟨rfl, l, rfl, rfl, hseen⟩
      exact takes_pure ⟨rfl, l, rfl, rfl, hseen⟩
    refine hcond.bind ?_
    rintro c ls post - ⟨rfl, l, rfl, rfl, hseen⟩
    split
    · -- another round, and then the loop from there
      rename_i hf
      refine (hbody b l hseen hf).bind ?_
      rintro b' ls' post' - ⟨x, rfl, rfl⟩
      refine (ih (step b x)).imp ?_
      rintro b'' ls'' post'' ⟨items, rfl, rfl, hend⟩
      exact ⟨x :: items, rfl, rfl, hend⟩
    · -- the token that is held back ends the loop
      rename_i hf
      exact takes_pure ⟨[], rfl, rfl, l, rfl, hseen, by simpa using hf⟩

end

end SimpleRpc.Gen
