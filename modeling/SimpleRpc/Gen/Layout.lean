import SimpleRpc.Gen.Parser

/-!
# Layout in the Sources of Services (`rpcgen.g`, `rpcgen.py`)

White space, semicolons and line comments are ignored wherever they stand. One kind of comment is
not: `//[^\n]+` wants at least one character, so that `//` with nothing behind it is a bad token.

## Layers

- **Items**: `LayoutItem`, what may be inserted
- **Points**: `Point`, where it may be inserted in a text that is parsed
- **Tokens**: what the scanner makes of a text with items in it
- **Results**: `layout_insensitive_iff`

## Main results

- `layout_insensitive_iff`: inserted items change nothing exactly if there is no empty comment
  among those that the scanner comes to
-/

namespace SimpleRpc.Gen

open SimpleRpc.Lib

/-! ## Items -/

/-- What may be inserted: a space, a semicolon, or a line comment with its newline. -/
inductive LayoutItem where
  | space (c : Char) (hc : isSpace c = true)
  | semicolon
  | comment (body : List Char) (hbody : '\n' ∉ body)
  deriving DecidableEq

namespace LayoutItem

def text : LayoutItem → List Char
  | .space c _ => [c]
  | .semicolon => [';']
  | .comment body _ => '/' :: '/' :: (body ++ ['\n'])

/-- `//` at the end of a line -/
def emptyComment : LayoutItem := .comment [] (by simp)

/-- Whether a line ends with the item. -/
def EndsLine : LayoutItem → Prop
  | .space c _ => c = '\n'
  | .semicolon => False
  | .comment _ _ => True

instance : DecidablePred EndsLine
  | .space c _ => inferInstanceAs (Decidable (c = '\n'))
  | .semicolon => isFalse id
  | .comment _ _ => isTrue trivial

end LayoutItem

def layoutText (items : List LayoutItem) : List Char := items.flatMap LayoutItem.text

/-- The items behind the first line. -/
def dropLine : List LayoutItem → List LayoutItem
  | [] => []
  | item :: items => if item.EndsLine then items else dropLine items

theorem dropLine_of_ends (item : LayoutItem) (items : List LayoutItem) (h : item.EndsLine) :
    dropLine (item :: items) = items := if_pos h

theorem dropLine_of_not (item : LayoutItem) (items : List LayoutItem) (h : ¬ item.EndsLine) :
    dropLine (item :: items) = dropLine items := if_neg h

@[simp] theorem layoutText_nil : layoutText [] = [] := rfl

@[simp] theorem layoutText_cons (item : LayoutItem) (items : List LayoutItem) :
    layoutText (item :: items) = item.text ++ layoutText items := rfl

theorem layoutText_head {items : List LayoutItem} {c : Char} (h : c ∈ (layoutText items).head?) :
    isLayoutHead c = true := by
  cases items with
  | nil => cases h
  | cons item items =>
    cases item with
    | space c hc =>
      cases h
      exact isLayoutHead_of_isSpace hc
    | semicolon =>
      cases h
      decide
    | comment body hbody =>
      cases h
      decide

/-! ## Points -/

/-- The text of the tokens of a record, with what was skipped. -/
def logText (log : List (Read TokType (List Char))) : List Char :=
  log.flatMap fun r => r.token.layout ++ r.token.value

/-- The kinds of points between two tokens, before the first and after the last one. -/
inductive Place where
  /-- between whole units of layout -/
  | between
  /-- at the end of the line of a comment -/
  | lineEnd
  /-- behind `%%`, where nothing is read -/
  | unread
  deriving DecidableEq, Repr

/-- A text is `pre ++ post`, and no token, space or comment is cut in two. -/
inductive Point (log : List (Read TokType (List Char))) (rest : List Char) :
    Place → List Char → List Char → Prop
  | between {front back : List (Read TokType (List Char))} {r : Read TokType (List Char)}
      {g g' : List Char} (hlog : log = front ++ r :: back) (hlayout : r.token.layout = g ++ g')
      (hg : Closed g) :
      Point log rest .between (logText front ++ g)
        (g' ++ (r.token.value ++ (logText back ++ rest)))
  | lineEnd {front back : List (Read TokType (List Char))} {r : Read TokType (List Char)}
      {g body g' : List Char} (hlog : log = front ++ r :: back)
      (hlayout : r.token.layout = g ++ ('/' :: '/' :: (body ++ g'))) (hg : Closed g)
      (hne : body ≠ []) (hbody : '\n' ∉ body)
      (hend : g' ++ (r.token.value ++ (logText back ++ rest)) = [] ∨
        ∃ post, g' ++ (r.token.value ++ (logText back ++ rest)) = '\n' :: post) :
      Point log rest .lineEnd (logText front ++ (g ++ ('/' :: '/' :: body)))
        (g' ++ (r.token.value ++ (logText back ++ rest)))
  | unread {front : List (Read TokType (List Char))} {r : Read TokType (List Char)}
      {a b : List Char} (hlog : log = front ++ [r]) (hr : r.token.value = ['%', '%'])
      (hrest : rest = a ++ b) : Point log rest .unread (logText log ++ a) b

/-- There is a point in front of each token. -/
theorem point_between {log : List (Read TokType (List Char))} {rest : List Char} {k : Nat}
    (hk : k < log.length) :
    Point log rest .between (logText (log.take k)) (logText (log.drop k) ++ rest) := by
  have hdrop : log.drop k = log[k] :: log.drop (k + 1) := List.drop_eq_getElem_cons hk
  have hlog : log = log.take k ++ log[k] :: log.drop (k + 1) := by
    rw [← hdrop, List.take_append_drop]
  have hpost : logText (log.drop k) ++ rest =
      log[k].token.layout ++ (log[k].token.value ++ (logText (log.drop (k + 1)) ++ rest)) := by
    rw [hdrop]
    simp only [logText, List.flatMap_cons, List.append_assoc]
  have hpoint : Point log rest .between (logText (log.take k) ++ []) _ :=
    .between hlog (List.nil_append _).symm .nil
  rw [hpost]
  rwa [List.append_nil] at hpoint

/-- No item that the scanner comes to is an empty comment. At the end of the line of a comment the
    first line of the items only makes this comment longer. -/
def Harmless : Place → List LayoutItem → Prop
  | .between, items => .emptyComment ∉ items
  | .lineEnd, items => .emptyComment ∉ dropLine items
  | .unread, _ => True

/-! ## Tokens -/

/-- What a parser sees of a token, and the text behind it. -/
def found (x : Token TokType (List Char) × List Char) : TokType × List Char × List Char :=
  (x.1.type, x.1.value, x.2)

theorem map_found_behind (g : List Char) (x : Option (Token TokType (List Char) × List Char)) :
    (x.map (behind g)).map found = x.map found := by
  rw [Option.map_map]
  rfl

/-- A comment in front of its newline. -/
theorem token_line (restrict : List TokType) {body : List Char} (hne : body ≠ [])
    (hbody : '\n' ∉ body) (s : List Char) :
    (token restrict ('/' :: '/' :: (body ++ '\n' :: s))).map found =
      (token restrict s).map found := by
  rw [token_comment restrict hne hbody (.inr ⟨s, rfl⟩), map_found_behind,
    token_space restrict (by decide), map_found_behind]

/-- **Items** between whole units are passed over, but for an empty comment. -/
theorem token_items (restrict : List TokType) (items : List LayoutItem) (s : List Char) :
    (token restrict (layoutText items ++ s)).map found =
      if .emptyComment ∈ items then none else (token restrict s).map found := by
  induction items with
  | nil => rfl
  | cons item items ih =>
    rw [layoutText_cons, List.append_assoc]
    cases item with
    | space c hc =>
      -- layout grows by the item, the token is the same
      rw [LayoutItem.text, List.singleton_append, token_space restrict hc, map_found_behind, ih]
      exact if_congr (by simp [LayoutItem.emptyComment]) rfl rfl
    | semicolon =>
      rw [LayoutItem.text, List.singleton_append, token_semicolon, map_found_behind, ih]
      exact if_congr (by simp [LayoutItem.emptyComment]) rfl rfl
    | comment body hbody =>
      have htext : (LayoutItem.comment body hbody).text ++ (layoutText items ++ s) =
          '/' :: '/' :: (body ++ '\n' :: (layoutText items ++ s)) := by simp [LayoutItem.text]
      rw [htext]
      -- `//` alone is no token at all
      by_cases hne : body = []
      · subst hne
        rw [List.nil_append, token_empty_comment]
        exact (if_pos (List.mem_cons_self ..)).symm
      · -- a whole line is passed over
        rw [token_line restrict hne hbody, ih]
        exact if_congr (by simp [LayoutItem.emptyComment, Ne.symm hne]) rfl rfl

/-- **Items at the end of a comment**: the first line of them belongs to the comment. -/
theorem token_items_behind (restrict : List TokType) (items : List LayoutItem)
    {body s : List Char} (hne : body ≠ []) (hbody : '\n' ∉ body)
    (hs : s = [] ∨ ∃ s', s = '\n' :: s') :
    (token restrict ('/' :: '/' :: (body ++ (layoutText items ++ s)))).map found =
      if .emptyComment ∈ dropLine items then none else (token restrict s).map found := by
  induction items generalizing body with
  | nil =>
    -- the comment ends with the text in front of `s`
    rw [layoutText_nil, List.nil_append, token_comment restrict hne hbody hs, map_found_behind]
    rfl
  | cons item items ih =>
    -- the comment goes on: with the rest of its line in front, it is one with a longer text
    have hlonger : ∀ more : List Char, '\n' ∉ more →
        (token restrict ('/' :: '/' :: (body ++ (more ++ (layoutText items ++ s))))).map found =
          if .emptyComment ∈ dropLine items then none else (token restrict s).map found := by
      intro more hmore
      rw [← List.append_assoc body]
      exact ih (by simp [hne]) (by simp [hbody, hmore])
    have hline : ∀ more : List Char, '\n' ∉ more →
        (token restrict ('/' :: '/' :: (body ++ (more ++ '\n' :: (layoutText items ++ s))))).map
          found = if .emptyComment ∈ items then none else (token restrict s).map found := by
      intro more hmore
      rw [← List.append_assoc body, token_line restrict (by simp [hne]) (by simp [hbody, hmore])]
      exact token_items restrict items s
    rw [layoutText_cons, List.append_assoc]
    cases item with
    | space c hc =>
      -- the newline ends the comment
      by_cases hnewline : c = '\n'
      · subst hnewline
        rw [dropLine_of_ends (.space '\n' hc) items rfl]
        exact hline [] (by simp)
      · -- the space belongs to it
        rw [dropLine_of_not (.space c hc) items hnewline]
        exact hlonger [c] (by simpa using Ne.symm hnewline)
    | semicolon =>
      -- so does a semicolon
      rw [dropLine_of_not .semicolon items id]
      exact hlonger [';'] (by decide)
    | comment text htext =>
      -- a comment in a comment is text, up to its newline
      rw [dropLine_of_ends (.comment text htext) items trivial, LayoutItem.text,
        List.cons_append, List.cons_append, List.append_assoc]
      exact hline ('/' :: '/' :: text) (by simpa using htext)

/-- Whole units in front of a text, and items behind them. -/
theorem token_items_between (restrict : List TokType) (items : List LayoutItem) {g : List Char}
    (hg : Closed g) (s : List Char) :
    (token restrict (g ++ (layoutText items ++ s))).map found =
      if .emptyComment ∈ items then none else (token restrict (g ++ s)).map found := by
  rw [token_closed restrict hg, map_found_behind, token_closed restrict hg, map_found_behind]
  exact token_items restrict items s

/-- Whole units in front of a comment, and items at the end of its line. -/
theorem token_items_lineEnd (restrict : List TokType) (items : List LayoutItem)
    {g body s : List Char} (hg : Closed g) (hne : body ≠ []) (hbody : '\n' ∉ body)
    (hs : s = [] ∨ ∃ s', s = '\n' :: s') :
    (token restrict (g ++ ('/' :: '/' :: body) ++ (layoutText items ++ s))).map found =
      if .emptyComment ∈ dropLine items then none
      else (token restrict (g ++ ('/' :: '/' :: body) ++ s)).map found := by
  simp only [List.append_assoc, List.cons_append]
  rw [token_closed restrict hg, map_found_behind, token_closed restrict hg, map_found_behind,
    token_comment restrict hne hbody hs, map_found_behind]
  exact token_items_behind restrict items hne hbody hs

/-! ## Results -/

theorem reads_text {s rest : List Char} {log : List (Read TokType (List Char))}
    (h : Reads token s log rest) : s = logText log ++ rest := by
  induction h with
  | nil => rfl
  | @cons s s' s'' r log htok hrest ih =>
    rw [(token_inv htok).1, ih]
    simp [logText]

theorem Follows.append {z z' : List Char} (h : Follows z z') (x : List Char) :
    Follows (x ++ z) (x ++ z') := by
  cases x with
  | nil => exact h
  | cons d x => exact fun c hc => .inr hc

/-- Tokens with a text are read again before other text. -/
theorem reads_before {s z z' : List Char} {log : List (Read TokType (List Char))}
    (h : Reads token s log z) (hne : ∀ r ∈ log, r.token.value ≠ []) (hz : Follows z z') :
    Reads token (logText log ++ z') log z' := by
  induction h with
  | nil => exact .nil z'
  | @cons s s' s'' r log htok hrest ih =>
    obtain ⟨hr, hlog⟩ := List.forall_mem_cons.mp hne
    have hbehind := ih hlog hz
    -- what stands behind this token starts alike, as the others have a text
    have hnext : Follows s' (logText log ++ z') := by
      rw [reads_text hrest]
      exact hz.append _
    have htok' := token_before htok hr hnext
    have htext : logText (r :: log) ++ z' =
        r.token.layout ++ (r.token.value ++ (logText log ++ z')) := by simp [logText]
    rw [htext]
    exact .cons htok' hbehind

/-- `parse('rpc_source', text)` returns `source`. -/
def Returns (text : List Char) (source : RpcSource) : Prop := ∃ log rest, Parsed text source log rest

theorem returns_of_run {fuel : Nat} {text : List Char} {source : RpcSource}
    {log : List (Read TokType (List Char))} {s : Scanner TokType (List Char) (List Char)}
    (h : (rpcSource fuel).run token (rpcScanner text) = some (source, log, s)) :
    Returns text source := by
  refine ⟨log, s.input, fuel, ?_⟩
  rw [parse, h]
  rfl

theorem Parsed.returns_iff {text rest : List Char} {source : RpcSource}
    {log : List (Read TokType (List Char))} (h : Parsed text source log rest)
    (source' : RpcSource) : Returns text source' ↔ source' = source :=
  ⟨fun ⟨_, _, h'⟩ => (h'.unique h).1, fun heq => heq ▸ ⟨log, rest, h⟩⟩

theorem reads_value_ne_nil {s z : List Char} {log : List (Read TokType (List Char))}
    (h : Reads token s log z) (htype : ∀ r ∈ log, r.token.type ≠ .eof) :
    ∀ r ∈ log, r.token.value ≠ [] := by
  induction h with
  | nil => exact nofun
  | cons htok _ ih =>
    obtain ⟨hr, hlog⟩ := List.forall_mem_cons.mp htype
    exact List.forall_mem_cons.mpr ⟨token_value_ne_nil htok hr, ih hlog⟩

/-- The parser on another text behind some of the tokens: it returns the same if the next token is
    the same, and nothing if there is none. -/
theorem Parsed.replace {m m' rest : List Char} {source : RpcSource}
    {front back : List (Read TokType (List Char))} {r : Read TokType (List Char)}
    (h : Parsed (logText front ++ m) source (front ++ r :: back) rest) (hm : Follows m m') :
    ((token r.restrict m').map found = (token r.restrict m).map found →
      Returns (logText front ++ m') source) ∧
    (token r.restrict m' = none → ∀ source', ¬ Returns (logText front ++ m') source') := by
  obtain ⟨hreads, front', last, hlog, hall, -⟩ := h.tokens
  obtain ⟨m₁, hfront, hback⟩ := hreads.append_inv
  obtain rfl : m₁ = m := (List.append_cancel_left (reads_text hfront)).symm
  -- only the last token is the end of the text
  have hfront' : front ++ (r :: back).dropLast = front' := by
    rw [← List.dropLast_append_of_ne_nil (List.cons_ne_nil r back), hlog, List.dropLast_concat]
  have hne : ∀ x ∈ front, x.token.value ≠ [] := reads_value_ne_nil hfront fun x hx =>
    hall x (hfront' ▸ List.mem_append_left _ hx)
  have hbefore := reads_before hfront hne hm
  obtain ⟨fuel, hparse⟩ := h
  obtain ⟨s, hrun, hs⟩ := rpcSource_run hparse
  constructor
  · intro hsame
    -- the same token behind other layout, and from there on the same text
    obtain ⟨m₂, htok, hrest⟩ := hback.cons_inv
    rw [htok, Option.map_some, Option.map_eq_some_iff] at hsame
    obtain ⟨⟨tok, m₂'⟩, htok', heq⟩ := hsame
    simp only [found, Prod.mk.injEq] at heq
    obtain ⟨htype, hvalue, rfl⟩ := heq
    have hkey : (front ++ ⟨r.restrict, tok⟩ :: back).map Read.key =
        (front ++ r :: back).map Read.key := by simp [Read.key, htype, hvalue]
    exact returns_of_run (Parser.run_replay hrun hkey (hbefore.append (.cons htok' hrest)))
  · rintro hnone source' ⟨log', rest', n, hparse'⟩
    -- with fuel for both texts the parser gets to the point and fails there
    obtain ⟨s', hrun', -⟩ := rpcSource_run (parse_mono (Nat.le_max_right fuel n) hparse')
    have hstuck : (rpcSource (max fuel n)).run token (rpcScanner (logText front ++ m')) = none :=
      Parser.run_stuck (rpcSource_mono (Nat.le_max_left fuel n) hrun) rfl hbefore hnone
    rw [hstuck] at hrun'
    cases hrun'

theorem follows_layoutText (items : List LayoutItem) (z : List Char) :
    Follows z (layoutText items ++ z) := by
  intro c hc
  cases htext : layoutText items with
  | nil =>
    rw [htext] at hc
    exact .inr hc
  | cons d text =>
    rw [htext] at hc
    exact .inl (layoutText_head (by rw [htext]; exact hc))

/-- A point in front of a token: what the items make of the token decides. -/
theorem Parsed.insert {x post rest : List Char} {source : RpcSource}
    {front back : List (Read TokType (List Char))} {r : Read TokType (List Char)}
    (h : Parsed (logText front ++ x ++ post) source (front ++ r :: back) rest)
    (items : List LayoutItem) {hasEmpty : Prop} [Decidable hasEmpty]
    (hitems : (token r.restrict (x ++ (layoutText items ++ post))).map found =
      if hasEmpty then none else (token r.restrict (x ++ post)).map found) :
    (¬ hasEmpty → Returns (logText front ++ x ++ (layoutText items ++ post)) source) ∧
    (hasEmpty → ∀ source', ¬ Returns (logText front ++ x ++ (layoutText items ++ post)) source') := by
  rw [List.append_assoc] at h ⊢
  obtain ⟨hsame, hnone⟩ := h.replace ((follows_layoutText items post).append x)
  constructor
  · intro hno
    rw [if_neg hno] at hitems
    exact hsame hitems
  · intro hyes
    rw [if_pos hyes, Option.map_eq_none_iff] at hitems
    exact hnone hitems

/-- Behind `%%` any text may stand. -/
theorem Parsed.unread {rest rest' : List Char} {source : RpcSource}
    {front : List (Read TokType (List Char))} {r : Read TokType (List Char)} {text : List Char}
    (h : Parsed text source (front ++ [r]) rest) (hr : r.token.value ≠ [])
    (hrest : Follows rest rest') : Returns (logText (front ++ [r]) ++ rest') source := by
  obtain ⟨hreads, front', last, hlog, hall, -⟩ := h.tokens
  obtain ⟨rfl, -⟩ := List.append_inj' hlog rfl
  obtain ⟨m, hfront, -⟩ := hreads.append_inv
  have hne : ∀ x ∈ front ++ [r], x.token.value ≠ [] := by
    intro x hx
    obtain hx | hx := List.mem_append.mp hx
    · exact reads_value_ne_nil hfront hall x hx
    · rw [List.mem_singleton.mp hx]
      exact hr
  obtain ⟨fuel, hparse⟩ := h
  obtain ⟨s, hrun, rfl⟩ := rpcSource_run hparse
  exact returns_of_run (Parser.run_replay hrun rfl (reads_before hreads hne hrest))

/-- Harmless items leave the result, others leave none. -/
theorem returns_inserted {pre post rest : List Char} {source : RpcSource}
    {log : List (Read TokType (List Char))} {place : Place}
    (h : Parsed (pre ++ post) source log rest) (hpoint : Point log rest place pre post)
    (items : List LayoutItem) :
    (Harmless place items → Returns (pre ++ (layoutText items ++ post)) source) ∧
    (¬ Harmless place items → ∀ source', ¬ Returns (pre ++ (layoutText items ++ post)) source') := by
  cases hpoint with
  | @between front back r g g' hlog hlayout hg =>
    subst hlog
    obtain ⟨hsame, hnone⟩ := h.insert items (token_items_between r.restrict items hg _)
    exact ⟨hsame, fun hharm => hnone (not_not.mp hharm)⟩
  | @lineEnd front back r g body g' hlog hlayout hg hne hbody hend =>
    subst hlog
    obtain ⟨hsame, hnone⟩ :=
      h.insert items (token_items_lineEnd r.restrict items hg hne hbody hend)
    exact ⟨hsame, fun hharm => hnone (not_not.mp hharm)⟩
  | @unread front r a b hlog hr hrest =>
    subst hlog hrest
    have hreturns := h.unread (by simp [hr]) ((follows_layoutText items post).append a)
    refine ⟨fun _ => ?_, fun hharm => absurd trivial hharm⟩
    rwa [List.append_assoc]

/-- **Layout**: items inserted at a point of a text leave the result as it is exactly if they are
    harmless there. -/
theorem layout_insensitive_iff {pre post rest : List Char} {source : RpcSource}
    {log : List (Read TokType (List Char))} {place : Place}
    (h : Parsed (pre ++ post) source log rest) (hpoint : Point log rest place pre post)
    (items : List LayoutItem) :
    (∀ source', Returns (pre ++ (layoutText items ++ post)) source' ↔
      Returns (pre ++ post) source') ↔ Harmless place items := by
  obtain ⟨hsame, hnone⟩ := returns_inserted h hpoint items
  constructor
  · intro hall
    by_contra hharm
    exact hnone hharm source ((hall source).mpr ⟨log, rest, h⟩)
  · intro hharmless source'
    obtain ⟨log', rest', h'⟩ := hsame hharmless
    rw [h'.returns_iff, h.returns_iff]

/-- A structure with two fields; the text is cut behind its brace. -/
theorem point_struct : ∃ source log rest,
    Parsed ("struct point \x7b".toList ++ " i32 x; i32 y; \x7d".toList) source log rest ∧
    Point log rest .between "struct point \x7b".toList " i32 x; i32 y; \x7d".toList := by
  have hcut : (parse 5 ("struct point \x7b".toList ++ " i32 x; i32 y; \x7d".toList)).map
      (fun x => (logText (x.2.1.take 3), logText (x.2.1.drop 3) ++ x.2.2, x.2.1.length)) =
        some ("struct point \x7b".toList, " i32 x; i32 y; \x7d".toList, 9) := by decide +kernel
  obtain ⟨⟨source, log, rest⟩, hparse, heq⟩ := Option.map_eq_some_iff.mp hcut
  simp only [Prod.mk.injEq] at heq
  obtain ⟨hpre, hpost, hlen⟩ := heq
  refine ⟨source, log, rest, ⟨5, hparse⟩, ?_⟩
  rw [← hpre, ← hpost]
  exact point_between (by omega)

/-- A comment with a text and a semicolon change nothing there. -/
theorem layout_in_struct : ∃ source,
    Returns ("struct point \x7b".toList ++ " i32 x; i32 y; \x7d".toList) source ∧
    Returns ("struct point \x7b".toList ++ (layoutText
      [.comment " a point".toList (by decide), .semicolon] ++ " i32 x; i32 y; \x7d".toList))
      source := by
  obtain ⟨source, log, rest, hparsed, hpoint⟩ := point_struct
  have hreturns : Returns _ source := ⟨log, rest, hparsed⟩
  have hharmless : Harmless .between [.comment " a point".toList (by decide), .semicolon] := by
    simp [Harmless, LayoutItem.emptyComment]
  exact ⟨source, hreturns,
    ((layout_insensitive_iff hparsed hpoint _).mpr hharmless source).mpr hreturns⟩

/-- A comment without a text makes the source unreadable. -/
theorem empty_comment_in_struct : ∃ source,
    Returns ("struct point \x7b".toList ++ " i32 x; i32 y; \x7d".toList) source ∧
    ¬ Returns ("struct point \x7b".toList ++ (['/', '/', '\n'] ++ " i32 x; i32 y; \x7d".toList))
      source := by
  obtain ⟨source, log, rest, hparsed, hpoint⟩ := point_struct
  refine ⟨source, ⟨log, rest, hparsed⟩, ?_⟩
  have hharm : ¬ Harmless .between [.emptyComment] := by simp [Harmless]
  exact (returns_inserted hparsed hpoint [.emptyComment]).2 hharm source

end SimpleRpc.Gen
