import Mathlib.Data.List.MinMax
import SimpleRpc.Lib.LookAhead

/-!
# The Scanner of the Generated Parser (`rpcgen.py`, `yapps/runtime.py`)

`RpcScanner` is a table of patterns. `Scanner.token` tries those it is asked for and those that are
to be ignored, takes the longest match, and passes over ignored text until it comes to a token.
`Scanner.peek` and `Scanner.scan` are those of `SimpleRpc.Lib.Scanner` over this function.

The positions of tokens, which only go into messages, are left out; the text of a token is a list
of characters. `rpcgen` reads with the classes of Python 2: the white space of `\s` is that of ASCII.

## Main results

- `token_inv`: what a token says of the text it was read from
- `token_space`, `token_semicolon`, `token_comment`: ignored text is passed, whatever tokens are
  asked for
- `token_empty_comment`: a comment without text is not ignored
- `token_congr`: a token is found again before other text
-/

namespace SimpleRpc.Gen

open SimpleRpc.Lib

/-! ## Patterns -/

/-- The names of the patterns. -/
inductive TokType where
  | udp | defer | raw | fast | zero | equals | rparen | bar | lparen | service | abstract | long
  | unsigned | int | bool | gt | comma | lt | v64 | v32 | i64 | i32 | i16 | i8 | rbrace | lbrace
  | struct | colons | namespace_
  /-- `\s+` -/
  | space
  /-- `//[^\n]+` -/
  | comment
  /-- `;` -/
  | semicolon
  | eof
  | symbol
  deriving DecidableEq, Repr

/-- The regular expressions of the table. -/
inductive Pattern where
  | literal (text : List Char)
  /-- `\s+` -/
  | space
  /-- `//[^\n]+` -/
  | comment
  /-- `($|%%)` -/
  | eof
  /-- `[a-zA-Z_][a-zA-Z0-9_]*` -/
  | symbol
  deriving DecidableEq, Repr

/-- `RpcScanner.patterns` -/
def patterns : List (TokType × Pattern) :=
  [(.udp, .literal "udp".toList), (.defer, .literal "defer".toList), (.raw, .literal "raw".toList),
    (.fast, .literal "fast".toList), (.zero, .literal "0".toList), (.equals, .literal "=".toList),
    (.rparen, .literal ")".toList), (.bar, .literal "|".toList), (.lparen, .literal "(".toList),
    (.service, .literal "service".toList), (.abstract, .literal "abstract".toList),
    (.long, .literal "long".toList), (.unsigned, .literal "unsigned".toList),
    (.int, .literal "int".toList), (.bool, .literal "bool".toList), (.gt, .literal ">".toList),
    (.comma, .literal ",".toList), (.lt, .literal "<".toList), (.v64, .literal "v64".toList),
    (.v32, .literal "v32".toList), (.i64, .literal "i64".toList), (.i32, .literal "i32".toList),
    (.i16, .literal "i16".toList), (.i8, .literal "i8".toList), (.rbrace, .literal "\x7d".toList),
    (.lbrace, .literal "\x7b".toList), (.struct, .literal "struct".toList),
    (.colons, .literal "::".toList), (.namespace_, .literal "namespace".toList), (.space, .space),
    (.comment, .comment), (.semicolon, .literal ";".toList), (.eof, .eof), (.symbol, .symbol)]

/-- The patterns to be ignored. -/
def ignore : List TokType := [.semicolon, .space, .comment]

/-- `\s` -/
def isSpace (c : Char) : Bool := c ∈ [' ', '\t', '\n', '\r', '\x0b', '\x0c']

def isSymbolStart (c : Char) : Bool := c.isAlpha || c == '_'

def isSymbolChar (c : Char) : Bool := c.isAlphanum || c == '_'

/-- `m.end() - m.start()`, for the match `m` at the front of the text. -/
def Pattern.matchLen : Pattern → List Char → Option Nat
  | .literal text, s => if text <+: s then some text.length else none
  | .space, s =>
    let n := (s.takeWhile isSpace).length
    if n = 0 then none else some n
  | .comment, '/' :: '/' :: s =>
    let n := (s.takeWhile (· ≠ '\n')).length
    if n = 0 then none else some (n + 2)
  | .comment, _ => none
  -- the end is also in front of a final newline
  | .eof, s => if s = [] ∨ s = ['\n'] then some 0 else if ['%', '%'] <+: s then some 2 else none
  | .symbol, [] => none
  | .symbol, c :: s =>
    if isSymbolStart c then some ((s.takeWhile isSymbolChar).length + 1) else none

/-! ## Tokens -/

/-- Whether a pattern is tried. -/
def Admitted (restrict : List TokType) (t : TokType) : Prop :=
  restrict = [] ∨ t ∈ restrict ∨ t ∈ ignore

instance (restrict : List TokType) : DecidablePred (Admitted restrict) :=
  fun t => inferInstanceAs (Decidable (restrict = [] ∨ t ∈ restrict ∨ t ∈ ignore))

/-- The patterns that match, with the lengths of the matches. -/
def candidates (restrict : List TokType) (s : List Char) : List (TokType × Nat) :=
  patterns.filterMap fun (t, p) =>
    if Admitted restrict t then (p.matchLen s).map fun n => (t, n) else none

/-- `best_pat` and `best_match`: the longest match, and among those the first one. -/
def bestMatch (restrict : List TokType) (s : List Char) : Option (TokType × Nat) :=
  (candidates restrict s).argmax Prod.snd

/-- A token behind more ignored text. -/
def behind (g : List Char) (found : Token TokType (List Char) × List Char) :
    Token TokType (List Char) × List Char :=
  ({ found.1 with layout := g ++ found.1.layout }, found.2)

/-- The loop of `Scanner.token`. -/
def tokenLoop (restrict : List TokType) :
    Nat → List Char → Option (Token TokType (List Char) × List Char)
  | 0, _ => none
  | fuel + 1, s =>
    match bestMatch restrict s with
    | none => none
    | some (t, n) =>
      if t ∈ ignore then (tokenLoop restrict fuel (s.drop n)).map (behind (s.take n))
      else some (⟨[], t, s.take n⟩, s.drop n)

/-- `Scanner.token`: the next token, and the text behind it. Every round passes over some text. -/
def token (restrict : List TokType) (s : List Char) :
    Option (Token TokType (List Char) × List Char) :=
  tokenLoop restrict (s.length + 1) s

/-! ## What matches -/

theorem matchLen_literal_inv {text s : List Char} {n : Nat}
    (h : (Pattern.literal text).matchLen s = some n) : text <+: s ∧ n = text.length := by
  simp only [Pattern.matchLen] at h
  split at h
  · rename_i hstarts
    exact ⟨hstarts, (Option.some.inj h).symm⟩
  · cases h

theorem matchLen_space_inv {s : List Char} {n : Nat} (h : Pattern.space.matchLen s = some n) :
    ∃ run rest, s = run ++ rest ∧ run ≠ [] ∧ (∀ c ∈ run, isSpace c = true) ∧ n = run.length := by
  simp only [Pattern.matchLen] at h
  split at h
  · cases h
  · rename_i hne
    refine ⟨s.takeWhile isSpace, s.dropWhile isSpace, ?_, ?_, ?_, (Option.some.inj h).symm⟩
    · exact List.takeWhile_append_dropWhile.symm
    · rwa [Ne, ← List.length_eq_zero_iff]
    · exact List.all_eq_true.mp List.all_takeWhile

theorem matchLen_comment_inv {s : List Char} {n : Nat} (h : Pattern.comment.matchLen s = some n) :
    ∃ body rest, s = '/' :: '/' :: (body ++ rest) ∧ body ≠ [] ∧ '\n' ∉ body ∧
      (rest = [] ∨ ∃ rest', rest = '\n' :: rest') ∧ n = body.length + 2 := by
  unfold Pattern.matchLen at h
  split at h
  all_goals try contradiction
  rename_i s _
  simp only at h
  split at h
  · cases h
  · rename_i hne
    refine ⟨s.takeWhile (· ≠ '\n'), s.dropWhile (· ≠ '\n'), ?_, ?_, ?_, ?_,
      (Option.some.inj h).symm⟩
    · -- the text falls into the comment and the rest
      rw [List.takeWhile_append_dropWhile]
    · -- the comment is not empty
      rwa [Ne, ← List.length_eq_zero_iff]
    · -- there is no newline in it
      intro hmem
      simpa using List.all_eq_true.mp List.all_takeWhile _ hmem
    · -- it ends in front of a newline or at the end
      cases hrest : s.dropWhile (· ≠ '\n') with
      | nil => exact .inl rfl
      | cons c rest =>
        have hhead := List.head?_dropWhile_not (fun c => decide (c ≠ '\n')) s
        rw [hrest] at hhead
        exact .inr ⟨rest, by simpa using hhead⟩

theorem matchLen_eof_inv {s : List Char} {n : Nat} (h : Pattern.eof.matchLen s = some n) :
    (s = [] ∨ s = ['\n']) ∧ n = 0 ∨ ['%', '%'] <+: s ∧ n = 2 := by
  simp only [Pattern.matchLen] at h
  split at h
  · rename_i hend
    exact .inl ⟨hend, (Option.some.inj h).symm⟩
  · split at h
    · rename_i hstarts
      exact .inr ⟨hstarts, (Option.some.inj h).symm⟩
    · cases h

theorem matchLen_symbol_inv {s : List Char} {n : Nat} (h : Pattern.symbol.matchLen s = some n) :
    ∃ c s', s = c :: s' ∧ isSymbolStart c = true ∧
      n = (s'.takeWhile isSymbolChar).length + 1 := by
  cases s with
  | nil => cases h
  | cons c s =>
    simp only [Pattern.matchLen] at h
    split at h
    · rename_i hstart
      exact ⟨c, s, rfl, hstart, (Option.some.inj h).symm⟩
    · cases h

theorem Pattern.matchLen_le {p : Pattern} {s : List Char} {n : Nat} (h : p.matchLen s = some n) :
    n ≤ s.length := by
  cases p with
  | literal text =>
    obtain ⟨hstarts, rfl⟩ := matchLen_literal_inv h
    exact hstarts.length_le
  | space =>
    obtain ⟨run, rest, rfl, -, -, rfl⟩ := matchLen_space_inv h
    simp
  | comment =>
    obtain ⟨body, rest, rfl, -, -, -, rfl⟩ := matchLen_comment_inv h
    simp
  | eof =>
    obtain ⟨-, rfl⟩ | ⟨hstarts, rfl⟩ := matchLen_eof_inv h
    · exact Nat.zero_le _
    · exact hstarts.length_le
  | symbol =>
    obtain ⟨c, s, rfl, -, rfl⟩ := matchLen_symbol_inv h
    exact Nat.succ_le_succ (s.takeWhile_prefix isSymbolChar).length_le

theorem mem_candidates {restrict : List TokType} {s : List Char} {t : TokType} {n : Nat} :
    (t, n) ∈ candidates restrict s ↔
      ∃ p, (t, p) ∈ patterns ∧ Admitted restrict t ∧ p.matchLen s = some n := by
  constructor
  · intro h
    obtain ⟨⟨t', p⟩, hmem, heq⟩ := List.mem_filterMap.mp h
    by_cases hadm : Admitted restrict t'
    · simp only [hadm, if_true, Option.map_eq_some_iff, Prod.mk.injEq] at heq
      obtain ⟨n', hn', rfl, rfl⟩ := heq
      exact ⟨p, hmem, hadm, hn'⟩
    · simp [hadm] at heq
  · rintro ⟨p, hmem, hadm, hn⟩
    exact List.mem_filterMap.mpr ⟨(t, p), hmem, by simp [hadm, hn]⟩

theorem bestMatch_inv {restrict : List TokType} {s : List Char} {t : TokType} {n : Nat}
    (h : bestMatch restrict s = some (t, n)) :
    (∃ p, (t, p) ∈ patterns ∧ Admitted restrict t ∧ p.matchLen s = some n) ∧
    ∀ t' p' m, (t', p') ∈ patterns → Admitted restrict t' → p'.matchLen s = some m → m ≤ n := by
  refine ⟨mem_candidates.mp (List.argmax_mem h), fun t' p' m hmem hadm hm => ?_⟩
  exact List.le_of_mem_argmax (mem_candidates.mpr ⟨p', hmem, hadm, hm⟩) h

/-- A match that is longer than all others is the best one. -/
theorem bestMatch_of_longest {restrict : List TokType} {s : List Char} {t : TokType} {p : Pattern}
    {n : Nat} (hmem : (t, p) ∈ patterns) (hadm : Admitted restrict t)
    (hmatch : p.matchLen s = some n)
    (hlongest : ∀ t' p' m, (t', p') ∈ patterns → p'.matchLen s = some m → n ≤ m → t' = t ∧ m = n) :
    bestMatch restrict s = some (t, n) := by
  have hcand := mem_candidates.mpr ⟨p, hmem, hadm, hmatch⟩
  cases hbest : bestMatch restrict s with
  | none =>
    rw [List.argmax_eq_none.mp hbest] at hcand
    cases hcand
  | some best =>
    obtain ⟨t', m⟩ := best
    obtain ⟨⟨p', hmem', -, hm⟩, hmax⟩ := bestMatch_inv hbest
    obtain ⟨rfl, rfl⟩ := hlongest t' p' m hmem' hm (hmax t p n hmem hadm hmatch)
    rfl

theorem bestMatch_none {restrict : List TokType} {s : List Char}
    (h : ∀ t p, (t, p) ∈ patterns → p.matchLen s = none) : bestMatch restrict s = none := by
  rw [bestMatch, List.argmax_eq_none, List.eq_nil_iff_forall_not_mem]
  rintro ⟨t, n⟩ hmem
  obtain ⟨p, hp, -, hn⟩ := mem_candidates.mp hmem
  rw [h t p hp] at hn
  cases hn

theorem bestMatch_congr {restrict : List TokType} {s s' : List Char}
    (h : ∀ t p, (t, p) ∈ patterns → Admitted restrict t → p.matchLen s' = p.matchLen s) :
    bestMatch restrict s' = bestMatch restrict s := by
  have hcand : candidates restrict s' = candidates restrict s := by
    refine List.filterMap_congr fun x hmem => ?_
    obtain ⟨t, p⟩ := x
    by_cases hadm : Admitted restrict t
    · simp [hadm, h t p hmem hadm]
    · simp [hadm]
  rw [bestMatch, hcand, bestMatch]

/-! ## Ignored text -/

/-- The characters ignored text starts with. -/
def isLayoutHead (c : Char) : Bool := isSpace c || c == ';' || c == '/'

/-- The one text of a pattern without repetition. -/
def Pattern.text : Pattern → List Char
  | .literal text => text
  | .eof => ['%', '%']
  | _ => []

theorem text_head : ∀ x ∈ patterns, x.1 ∉ ignore → x.2 ≠ .symbol →
    (x.2.text.head?.any fun c => !isLayoutHead c) = true := by decide

theorem pattern_iff : ∀ x ∈ patterns, ∀ y ∈ patterns, x.1 = y.1 ↔ x.2 = y.2 := by
  decide +kernel

/-- A pattern has one name. -/
theorem type_unique {t t' : TokType} {p : Pattern} (h : (t, p) ∈ patterns)
    (h' : (t', p) ∈ patterns) : t = t' := (pattern_iff _ h _ h').mpr rfl

/-- A name stands for one pattern. -/
theorem pattern_unique {t : TokType} {p p' : Pattern} (h : (t, p) ∈ patterns)
    (h' : (t, p') ∈ patterns) : p = p' := (pattern_iff _ h _ h').mp rfl

theorem pattern_of_ignored : ∀ x ∈ patterns, x.1 ∈ ignore →
    x.2 = .space ∨ x.2 = .comment ∨ x.2 = .literal [';'] := by decide

theorem isLayoutHead_of_isSpace {c : Char} (h : isSpace c = true) : isLayoutHead c = true := by
  simp [isLayoutHead, h]

/-- A letter, a digit or an underscore is no layout. -/
theorem isSymbolChar_eq_false {c : Char} (h : isLayoutHead c = true) : isSymbolChar c = false := by
  simp only [isLayoutHead, isSpace, Bool.or_eq_true, decide_eq_true_eq, beq_iff_eq,
    List.mem_cons, List.not_mem_nil, or_false] at h
  obtain ((rfl | rfl | rfl | rfl | rfl | rfl) | rfl) | rfl := h <;> decide

theorem isSymbolChar_of_isSymbolStart {c : Char} (h : isSymbolStart c = true) :
    isSymbolChar c = true := by
  simp only [isSymbolStart, isSymbolChar, Char.isAlphanum, Bool.or_eq_true] at h ⊢
  tauto

theorem isSymbolStart_eq_false {c : Char} (h : isLayoutHead c = true) :
    isSymbolStart c = false := by
  by_contra hstart
  rw [Bool.not_eq_false] at hstart
  have hchar := isSymbolChar_eq_false h
  rw [isSymbolChar_of_isSymbolStart hstart] at hchar
  cases hchar

/-- Layout is matched by the ignored patterns only. -/
theorem matchLen_layoutHead {t : TokType} {p : Pattern} {c : Char} {s : List Char} {m : Nat}
    (hmem : (t, p) ∈ patterns) (hc : isLayoutHead c = true) (h : p.matchLen (c :: s) = some m)
    (hpos : 0 < m) : t ∈ ignore := by
  by_contra hnot
  -- a fixed text starts with another character
  have hhead : p ≠ .symbol → ¬ p.text <+: c :: s := by
    intro hne hstarts
    have hhead := text_head (t, p) hmem hnot hne
    cases htext : p.text with
    | nil => simp [htext] at hhead
    | cons d ds =>
      rw [htext, List.cons_prefix_cons] at hstarts
      rw [htext, hstarts.1] at hhead
      simp [hc] at hhead
  cases p with
  | literal text => exact hhead nofun (matchLen_literal_inv h).1
  | space =>
    -- `space` and `comment` are ignored
    obtain rfl : t = .space := type_unique hmem (by decide)
    exact hnot (by decide)
  | comment =>
    obtain rfl : t = .comment := type_unique hmem (by decide)
    exact hnot (by decide)
  | eof =>
    -- an empty match is none, and `%%` does not look like layout
    obtain ⟨-, rfl⟩ | ⟨hstarts, -⟩ := matchLen_eof_inv h
    · exact absurd hpos (by decide)
    · exact hhead nofun hstarts
  | symbol =>
    -- a symbol does not start like layout
    obtain ⟨d, s', heq, hstart, -⟩ := matchLen_symbol_inv h
    cases heq
    rw [isSymbolStart_eq_false hc] at hstart
    cases hstart

/-- Each kind of layout is told by its first character. -/
theorem ignored_head {t : TokType} {p : Pattern} {c : Char} {s : List Char} {m : Nat}
    (hmem : (t, p) ∈ patterns) (ht : t ∈ ignore) (h : p.matchLen (c :: s) = some m) :
    p = .space ∧ isSpace c = true ∨ p = .comment ∧ c = '/' ∨ p = .literal [';'] ∧ c = ';' := by
  obtain hp | hp | hp := pattern_of_ignored _ hmem ht
  · obtain rfl : p = .space := hp
    obtain ⟨run, rest, htext, hne, hrun, -⟩ := matchLen_space_inv h
    obtain ⟨d, run, rfl⟩ := List.exists_cons_of_ne_nil hne
    cases htext
    exact .inl ⟨rfl, hrun c (List.mem_cons_self ..)⟩
  · obtain rfl : p = .comment := hp
    obtain ⟨body, rest, htext, -⟩ := matchLen_comment_inv h
    cases htext
    exact .inr (.inl ⟨rfl, rfl⟩)
  · obtain rfl : p = .literal [';'] := hp
    obtain ⟨hstarts, -⟩ := matchLen_literal_inv h
    exact .inr (.inr ⟨rfl, (List.cons_prefix_cons.mp hstarts).1.symm⟩)

/-- In front of layout the pattern of its kind is the best one, whatever is asked for. -/
theorem bestMatch_layout {restrict : List TokType} {t : TokType} {p : Pattern} {c : Char}
    {s : List Char} {n : Nat} (hmem : (t, p) ∈ patterns) (ht : t ∈ ignore)
    (hc : isLayoutHead c = true) (hmatch : p.matchLen (c :: s) = some n) (hpos : 0 < n) :
    bestMatch restrict (c :: s) = some (t, n) := by
  refine bestMatch_of_longest hmem (.inr (.inr ht)) hmatch fun t' p' m hmem' hm hle => ?_
  have ht' := matchLen_layoutHead hmem' hc hm (by omega)
  -- another pattern would need another first character
  have hp : p = p' := by
    obtain ⟨rfl, h⟩ | ⟨rfl, rfl⟩ | ⟨rfl, rfl⟩ := ignored_head hmem ht hmatch <;>
      obtain ⟨rfl, h'⟩ | ⟨rfl, h'⟩ | ⟨rfl, h'⟩ := ignored_head hmem' ht' hm
    all_goals first
      | rfl
      | exact absurd h' (by decide)
      | exact absurd (h' ▸ h) (by decide)
  subst hp
  rw [hmatch] at hm
  exact ⟨type_unique hmem' hmem, (Option.some.inj hm).symm⟩

theorem bestMatch_space (restrict : List TokType) {c : Char} (hc : isSpace c = true)
    (s : List Char) :
    bestMatch restrict (c :: s) = some (.space, (s.takeWhile isSpace).length + 1) :=
  bestMatch_layout (p := .space) (by decide) (by decide) (isLayoutHead_of_isSpace hc)
    (by simp [Pattern.matchLen, hc]) (by omega)

theorem bestMatch_semicolon (restrict : List TokType) (s : List Char) :
    bestMatch restrict (';' :: s) = some (.semicolon, 1) :=
  bestMatch_layout (p := .literal [';']) (by decide) (by decide) (by decide)
    (by simp [Pattern.matchLen]) (by omega)

theorem bestMatch_comment (restrict : List TokType) {s : List Char}
    (h : (s.takeWhile (· ≠ '\n')).length ≠ 0) :
    bestMatch restrict ('/' :: '/' :: s) =
      some (.comment, (s.takeWhile (· ≠ '\n')).length + 2) :=
  bestMatch_layout (p := .comment) (by decide) (by decide) (by decide)
    (by simp only [Pattern.matchLen]; exact if_neg h) (by omega)

theorem literal_ne_nil : ∀ x ∈ patterns, x.2 ≠ .literal [] := by decide

/-- Only the end of the text is matched by nothing. -/
theorem matchLen_eq_zero {t : TokType} {p : Pattern} {s : List Char} (hmem : (t, p) ∈ patterns)
    (h : p.matchLen s = some 0) : p = .eof ∧ (s = [] ∨ s = ['\n']) := by
  cases p with
  | literal text =>
    have hnil : text = [] := List.length_eq_zero_iff.mp (matchLen_literal_inv h).2.symm
    exact absurd (by rw [hnil]) (literal_ne_nil _ hmem)
  | space =>
    obtain ⟨run, rest, -, hne, -, hlen⟩ := matchLen_space_inv h
    exact absurd (List.length_eq_zero_iff.mp hlen.symm) hne
  | comment =>
    obtain ⟨body, rest, -, -, -, -, hlen⟩ := matchLen_comment_inv h
    omega
  | eof =>
    obtain ⟨hend, -⟩ | ⟨-, hlen⟩ := matchLen_eof_inv h
    · exact ⟨rfl, hend⟩
    · cases hlen
  | symbol =>
    obtain ⟨c, s', -, -, hlen⟩ := matchLen_symbol_inv h
    omega

/-- `//[^\n]+` wants a character, and no other pattern matches. -/
theorem bestMatch_empty_comment (restrict : List TokType) {s : List Char}
    (h : (s.takeWhile (· ≠ '\n')).length = 0) :
    bestMatch restrict ('/' :: '/' :: s) = none := by
  refine bestMatch_none fun t p hmem => ?_
  cases hm : p.matchLen ('/' :: '/' :: s) with
  | none => rfl
  | some m =>
    by_cases hpos : 0 < m
    · have ht := matchLen_layoutHead hmem (by decide) hm hpos
      obtain ⟨-, hc⟩ | ⟨rfl, -⟩ | ⟨-, hc⟩ := ignored_head hmem ht hm
      · exact absurd hc (by decide)
      · rw [Pattern.matchLen, if_pos h] at hm
        cases hm
      · exact absurd hc (by decide)
    · obtain rfl : m = 0 := by omega
      obtain ⟨-, hend | hend⟩ := matchLen_eq_zero hmem hm
      · cases hend
      · cases hend

/-! ## The loop -/

/-- Ignored text is never empty, so that what is left is shorter. -/
theorem length_drop_lt {restrict : List TokType} {s : List Char} {t : TokType} {n : Nat}
    (hbest : bestMatch restrict s = some (t, n)) (ht : t ∈ ignore) :
    (s.drop n).length < s.length := by
  obtain ⟨⟨p, hmem, -, hmatch⟩, -⟩ := bestMatch_inv hbest
  have hle := Pattern.matchLen_le hmatch
  have hpos : n ≠ 0 := by
    rintro rfl
    obtain ⟨rfl, -⟩ := matchLen_eq_zero hmem hmatch
    obtain h | h | h := pattern_of_ignored _ hmem ht
    all_goals cases h
  rw [List.length_drop]
  omega

/-- Fuel beyond the length of the text changes nothing. -/
theorem tokenLoop_eq {restrict : List TokType} {m n : Nat} {s : List Char} (hm : s.length < m)
    (hn : s.length < n) : tokenLoop restrict m s = tokenLoop restrict n s := by
  induction m generalizing n s with
  | zero => omega
  | succ m ih =>
    obtain ⟨n, rfl⟩ : ∃ k, n = k + 1 := ⟨n - 1, by omega⟩
    -- both take the same match; only an ignored one goes into another round
    rw [tokenLoop, tokenLoop]
    cases hbest : bestMatch restrict s with
    | none => rfl
    | some best =>
      obtain ⟨t, len⟩ := best
      by_cases ht : t ∈ ignore
      · have hlt := length_drop_lt hbest ht
        have hsame : tokenLoop restrict m (s.drop len) = tokenLoop restrict n (s.drop len) :=
          ih (by omega) (by omega)
        simp only [ht, if_true, hsame]
      · simp only [ht, if_false]

theorem token_of_none {restrict : List TokType} {s : List Char}
    (hbest : bestMatch restrict s = none) : token restrict s = none := by
  simp only [token, tokenLoop, hbest]

theorem token_of_ignored {restrict : List TokType} {s : List Char} {t : TokType} {n : Nat}
    (hbest : bestMatch restrict s = some (t, n)) (ht : t ∈ ignore) :
    token restrict s = (token restrict (s.drop n)).map (behind (s.take n)) := by
  have hlt := length_drop_lt hbest ht
  simp only [token, tokenLoop, hbest, ht, if_true]
  rw [tokenLoop_eq hlt (Nat.lt_succ_self _), tokenLoop]

theorem token_of_found {restrict : List TokType} {s : List Char} {t : TokType} {n : Nat}
    (hbest : bestMatch restrict s = some (t, n)) (ht : t ∉ ignore) :
    token restrict s = some (⟨[], t, s.take n⟩, s.drop n) := by
  simp only [token, tokenLoop, hbest, ht, if_false]

theorem behind_behind (g g' : List Char) (found : Token TokType (List Char) × List Char) :
    behind g (behind g' found) = behind (g ++ g') found := by
  simp [behind]

/-! ## Passing over ignored text -/

theorem token_space (restrict : List TokType) {c : Char} (hc : isSpace c = true) (s : List Char) :
    token restrict (c :: s) = (token restrict s).map (behind [c]) := by
  rw [token_of_ignored (bestMatch_space restrict hc s) (by decide), List.drop_succ_cons,
    List.take_succ_cons]
  -- the whole run is passed at once; what is left of it is passed by the next call
  cases s with
  | nil => rfl
  | cons c' s =>
    by_cases hc' : isSpace c' = true
    · rw [token_of_ignored (bestMatch_space restrict hc' s) (by decide), Option.map_map]
      simp [hc', Function.comp_def, behind_behind]
    · simp [hc']

theorem token_semicolon (restrict : List TokType) (s : List Char) :
    token restrict (';' :: s) = (token restrict s).map (behind [';']) :=
  token_of_ignored (bestMatch_semicolon restrict s) (by decide)

/-- A comment with a text is passed, up to the end of the line. -/
theorem token_comment (restrict : List TokType) {body s : List Char} (hne : body ≠ [])
    (hbody : '\n' ∉ body) (hs : s = [] ∨ ∃ s', s = '\n' :: s') :
    token restrict ('/' :: '/' :: (body ++ s)) =
      (token restrict s).map (behind ('/' :: '/' :: body)) := by
  have hrest : s.takeWhile (· ≠ '\n') = [] := by
    obtain rfl | ⟨s', rfl⟩ := hs
    · rfl
    · simp
  have htake : (body ++ s).takeWhile (· ≠ '\n') = body := by
    rw [List.takeWhile_append_of_pos, hrest, List.append_nil]
    intro c hc
    exact decide_eq_true fun heq => hbody (heq ▸ hc)
  have hbest := bestMatch_comment restrict (s := body ++ s)
    (by rwa [htake, Ne, List.length_eq_zero_iff])
  rw [token_of_ignored hbest (by decide), htake]
  simp

/-- A comment without a text is an error. -/
theorem token_empty_comment (restrict : List TokType) (s : List Char) :
    token restrict ('/' :: '/' :: '\n' :: s) = none :=
  token_of_none (bestMatch_empty_comment restrict (by simp))

/-! ## What a token says of the text -/

/-- Whole units of ignored text: spaces, semicolons and comments with their newlines. -/
inductive Closed : List Char → Prop
  | nil : Closed []
  | space {c : Char} {g : List Char} (hc : isSpace c = true) (hg : Closed g) : Closed (c :: g)
  | semicolon {g : List Char} (hg : Closed g) : Closed (';' :: g)
  | comment {body g : List Char} (hne : body ≠ []) (hbody : '\n' ∉ body) (hg : Closed g) :
      Closed ('/' :: '/' :: (body ++ '\n' :: g))

theorem Closed.append {g g' : List Char} (h : Closed g) (h' : Closed g') : Closed (g ++ g') := by
  induction h with
  | nil => exact h'
  | space hc _ ih => exact .space hc ih
  | semicolon _ ih => exact .semicolon ih
  | comment hne hbody _ ih => simpa using Closed.comment hne hbody ih

theorem Closed.head {c : Char} {g : List Char} (h : Closed (c :: g)) : isLayoutHead c = true := by
  cases h with
  | space hc _ => exact isLayoutHead_of_isSpace hc
  | semicolon _ => decide
  | comment _ _ _ => decide

/-- **Layout** is passed over, whatever comes behind it and whatever tokens are asked for. -/
theorem token_closed (restrict : List TokType) {g : List Char} (h : Closed g) (s : List Char) :
    token restrict (g ++ s) = (token restrict s).map (behind g) := by
  induction h with
  | nil => cases htok : token restrict s <;> simp [htok, behind]
  | @space c g hc _ ih =>
    rw [List.cons_append, token_space restrict hc, ih, Option.map_map]
    simp [Function.comp_def, behind_behind]
  | @semicolon g _ ih =>
    rw [List.cons_append, token_semicolon, ih, Option.map_map]
    simp [Function.comp_def, behind_behind]
  | @comment body g hne hbody _ ih =>
    have hline := token_comment restrict hne hbody (.inr ⟨g ++ s, rfl⟩)
    have hnewline := token_space restrict (show isSpace '\n' = true by decide) (g ++ s)
    rw [show '/' :: '/' :: (body ++ '\n' :: g) ++ s = '/' :: '/' :: (body ++ '\n' :: (g ++ s)) by
      simp, hline, hnewline, ih, Option.map_map, Option.map_map]
    simp [Function.comp_def, behind_behind]

theorem closed_of_spaces {g : List Char} (h : ∀ c ∈ g, isSpace c = true) : Closed g := by
  induction g with
  | nil => exact .nil
  | cons c g ih =>
    exact .space (h c (List.mem_cons_self ..)) (ih fun d hd => h d (List.mem_cons_of_mem c hd))

theorem Closed.tail_of_newline {g : List Char} (h : Closed ('\n' :: g)) : Closed g := by
  cases h with
  | space _ hg => exact hg

/-- A match of an ignored pattern in front of whole units, with something other than layout
    behind them. -/
theorem closed_take {t : TokType} {p : Pattern} {s g x : List Char} {n : Nat} {c : Char}
    (hmem : (t, p) ∈ patterns) (ht : t ∈ ignore) (hmatch : p.matchLen s = some n) (hg : Closed g)
    (hdrop : s.drop n = g ++ c :: x) (hc : isLayoutHead c = false) : Closed (s.take n ++ g) := by
  obtain hp | hp | hp := pattern_of_ignored _ hmem ht
  · obtain rfl : p = .space := hp
    obtain ⟨run, rest, rfl, -, hrun, rfl⟩ := matchLen_space_inv hmatch
    rw [List.take_left]
    exact (closed_of_spaces hrun).append hg
  · obtain rfl : p = .comment := hp
    obtain ⟨body, rest, rfl, hne, hbody, hrest, rfl⟩ := matchLen_comment_inv hmatch
    simp only [List.drop_succ_cons, List.drop_left, List.take_succ_cons, List.take_left] at hdrop ⊢
    -- the newline behind the comment can only be one of the layout
    obtain rfl | ⟨rest', rfl⟩ := hrest
    · simp at hdrop
    · cases g with
      | nil =>
        cases hdrop
        exact absurd hc (by decide)
      | cons d g =>
        cases hdrop
        exact .comment hne hbody hg.tail_of_newline
  · obtain rfl : p = .literal [';'] := hp
    obtain ⟨⟨s', rfl⟩, rfl⟩ := matchLen_literal_inv hmatch
    exact .semicolon hg

/-- The first character of a token is no layout. -/
theorem head_of_found {restrict : List TokType} {t : TokType} {c : Char} {v rest : List Char}
    (hbest : bestMatch restrict (c :: v ++ rest) = some (t, (c :: v).length)) (ht : t ∉ ignore) :
    isLayoutHead c = false := by
  by_contra hc
  rw [Bool.not_eq_false] at hc
  obtain ⟨⟨p, hmem, -, hmatch⟩, -⟩ := bestMatch_inv hbest
  exact ht (matchLen_layoutHead hmem hc hmatch (by simp))

/-- **What a token says of the text**: the text is the layout, the token and the rest; the token is
    the best match where the layout ends, and in front of a token with a text the layout consists
    of whole units. -/
theorem token_inv {restrict : List TokType} {s : List Char}
    {tok : Token TokType (List Char)} {rest : List Char}
    (h : token restrict s = some (tok, rest)) :
    s = tok.layout ++ (tok.value ++ rest) ∧ tok.type ∉ ignore ∧
      bestMatch restrict (tok.value ++ rest) = some (tok.type, tok.value.length) ∧
      (tok.value ≠ [] → Closed tok.layout) := by
  -- every ignored match leaves a shorter text
  induction hlen : s.length using Nat.strong_induction_on generalizing s tok rest with
  | _ len ih =>
    cases hbest : bestMatch restrict s with
    | none =>
      rw [token_of_none hbest] at h
      cases h
    | some best =>
      obtain ⟨t, n⟩ := best
      obtain ⟨⟨p, hmem, -, hmatch⟩, -⟩ := bestMatch_inv hbest
      by_cases ht : t ∈ ignore
      · -- an ignored match: the layout grows by it
        rw [token_of_ignored hbest ht, Option.map_eq_some_iff] at h
        obtain ⟨⟨tok', rest'⟩, htok', heq⟩ := h
        cases heq
        obtain ⟨htext, hnot, hfound, hclosed⟩ :=
          ih _ (hlen ▸ length_drop_lt hbest ht) htok' rfl
        refine ⟨?_, hnot, hfound, fun hne => ?_⟩
        · rw [List.append_assoc, ← htext, List.take_append_drop]
        · obtain ⟨c, v, hv⟩ := List.exists_cons_of_ne_nil hne
          rw [hv] at hfound htext
          exact closed_take hmem ht hmatch (hclosed hne) htext (head_of_found hfound hnot)
      · -- the token itself: no layout is in front
        rw [token_of_found hbest ht] at h
        cases h
        have hle := Pattern.matchLen_le hmatch
        refine ⟨by simp, ht, ?_, fun _ => .nil⟩
        simpa [Nat.min_eq_left hle] using hbest

/-! ## Tokens before other text -/

/-- The text `z'` starts with layout, or like `z`. -/
def Follows (z z' : List Char) : Prop :=
  ∀ c ∈ z'.head?, isLayoutHead c = true ∨ z.head? = some c

theorem text_prefix_free : ∀ x ∈ patterns, ∀ y ∈ patterns, x.1 ∉ ignore → y.1 ∉ ignore →
    x.2 ≠ .symbol → y.2 ≠ .symbol → x.2.text <+: y.2.text → x.2.text = y.2.text := by
  decide +kernel

theorem text_of_word : ∀ x ∈ patterns, x.1 ∉ ignore → x.2 ≠ .symbol →
    x.2.text.head?.any isSymbolStart = true → x.2.text.all isSymbolChar = true := by
  decide

/-- A run of symbol characters that ends within `xs` ends at the same place before other text. -/
theorem takeWhile_before {xs z z' : List Char}
    (hlen : ((xs ++ z).takeWhile isSymbolChar).length ≤ xs.length) (hz : Follows z z') :
    (xs ++ z').takeWhile isSymbolChar = (xs ++ z).takeWhile isSymbolChar := by
  induction xs with
  | nil =>
    have hnil : z.takeWhile isSymbolChar = [] := by simpa using hlen
    rw [List.nil_append, List.nil_append, hnil]
    cases z' with
    | nil => rfl
    | cons d z' =>
      obtain hd | hd := hz d rfl
      · simp [isSymbolChar_eq_false hd]
      · obtain ⟨z, rfl⟩ : ∃ y, z = d :: y := List.head?_eq_some_iff.mp hd
        by_cases hchar : isSymbolChar d = true
        · simp [hchar] at hnil
        · simp [hchar]
  | cons c xs ih =>
    by_cases hchar : isSymbolChar c = true
    · simp only [List.cons_append, List.takeWhile_cons, hchar, if_true, List.length_cons] at hlen ⊢
      rw [ih (by omega)]
    · simp [hchar]

/-- A run that ends with `xs`: its characters, and the one behind it. -/
theorem takeWhile_ends {xs z : List Char}
    (hlen : ((xs ++ z).takeWhile isSymbolChar).length = xs.length) :
    (∀ d ∈ xs, isSymbolChar d = true) ∧ ∀ d ∈ z.head?, isSymbolChar d = false := by
  induction xs with
  | nil =>
    refine ⟨nofun, fun d hd => ?_⟩
    obtain ⟨z, rfl⟩ : ∃ y, z = d :: y := List.head?_eq_some_iff.mp hd
    cases hchar : isSymbolChar d with
    | false => rfl
    | true => simp [hchar] at hlen
  | cons c xs ih =>
    by_cases hc : isSymbolChar c = true
    · obtain ⟨hall, hz⟩ := ih (by simpa [hc] using hlen)
      exact ⟨List.forall_mem_cons.mpr ⟨hc, hall⟩, hz⟩
    · simp [hc] at hlen

/-- A text in front of `v ++ z` or `v ++ z'`, where none goes on behind `v`. -/
theorem prefix_before {w v z z' : List Char} (hlen : w <+: v ++ z → w.length ≤ v.length)
    (hext : ∀ d w', w = v ++ d :: w' → z'.head? ≠ some d) : w <+: v ++ z' ↔ w <+: v ++ z := by
  by_cases hle : w.length ≤ v.length
  · have hstarts : ∀ y, w <+: v ++ y ↔ w <+: v := fun y =>
      ⟨fun h => List.prefix_of_prefix_length_le h (List.prefix_append v y) hle,
        fun h => h.trans (List.prefix_append v y)⟩
    rw [hstarts, hstarts]
  · refine ⟨fun h => ?_, fun h => absurd (hlen h) hle⟩
    obtain ⟨u, rfl⟩ := List.prefix_of_prefix_length_le (List.prefix_append v z') h (by omega)
    obtain ⟨d, w', rfl⟩ : ∃ d w', u = d :: w' := by
      cases u with
      | nil => simp at hle
      | cons d w' => exact ⟨d, w', rfl⟩
    rw [List.prefix_append_right_inj] at h
    obtain ⟨y, rfl⟩ := h
    exact absurd rfl (hext d w' rfl)

/-- What the text of a token is: the text of a literal, or a whole symbol. -/
theorem found_text {t : TokType} {p : Pattern} {v z : List Char} (hmem : (t, p) ∈ patterns)
    (ht : t ∉ ignore) (hmatch : p.matchLen (v ++ z) = some v.length) (hne : v ≠ []) :
    p ≠ .symbol ∧ v = p.text ∨
    p = .symbol ∧ ∃ c v', v = c :: v' ∧ isSymbolStart c = true ∧
      (∀ d ∈ v', isSymbolChar d = true) ∧ ∀ d ∈ z.head?, isSymbolChar d = false := by
  have hsame : ∀ {w : List Char}, w <+: v ++ z → w.length = v.length → v = w := fun h hlen =>
    ((List.prefix_of_prefix_length_le h (List.prefix_append v z) hlen.le).eq_of_length hlen).symm
  cases p with
  | literal text =>
    obtain ⟨hstarts, hlen⟩ := matchLen_literal_inv hmatch
    exact .inl ⟨nofun, hsame hstarts hlen.symm⟩
  | space =>
    -- layout is no token
    obtain rfl : t = .space := type_unique hmem (by decide)
    exact absurd (by decide) ht
  | comment =>
    obtain rfl : t = .comment := type_unique hmem (by decide)
    exact absurd (by decide) ht
  | eof =>
    -- the end has no text, unless it is written `%%`
    obtain ⟨-, hlen⟩ | ⟨hstarts, hlen⟩ := matchLen_eof_inv hmatch
    · exact absurd (List.length_eq_zero_iff.mp hlen) hne
    · exact .inl ⟨nofun, hsame hstarts hlen.symm⟩
  | symbol =>
    -- a symbol takes all its characters
    obtain ⟨c, s, htext, hstart, hlen⟩ := matchLen_symbol_inv hmatch
    obtain ⟨d, v', rfl⟩ := List.exists_cons_of_ne_nil hne
    cases htext
    have hrun : ((v' ++ z).takeWhile isSymbolChar).length = v'.length := by simpa using hlen.symm
    obtain ⟨hall, hz⟩ := takeWhile_ends hrun
    exact .inr ⟨rfl, c, v', rfl, hstart, hall, hz⟩

/-- A pattern that finds no longer match than the token finds the same before other text. -/
theorem matchLen_before {t t' : TokType} {p p' : Pattern} {v z z' : List Char}
    (hmem : (t, p) ∈ patterns) (ht : t ∉ ignore) (hmatch : p.matchLen (v ++ z) = some v.length)
    (hne : v ≠ []) (hz : Follows z z') (hmem' : (t', p') ∈ patterns)
    (hle : ∀ m, p'.matchLen (v ++ z) = some m → m ≤ v.length) :
    p'.matchLen (v ++ z') = p'.matchLen (v ++ z) := by
  obtain ⟨c, v, rfl⟩ := List.exists_cons_of_ne_nil hne
  have hc : isLayoutHead c = false := by
    by_contra hc
    rw [Bool.not_eq_false] at hc
    exact ht (matchLen_layoutHead hmem hc hmatch (by simp))
  by_cases ht' : t' ∈ ignore
  · -- no ignored text starts like the token
    have hnone : ∀ y, p'.matchLen (c :: v ++ y) = none := fun y => by
      cases hm : p'.matchLen (c :: v ++ y) with
      | none => rfl
      | some m =>
        obtain ⟨-, h⟩ | ⟨-, rfl⟩ | ⟨-, rfl⟩ := ignored_head hmem' ht' hm
        · rw [isLayoutHead_of_isSpace h] at hc
          cases hc
        · exact absurd hc (by decide)
        · exact absurd hc (by decide)
    rw [hnone, hnone]
  · -- no text of a pattern goes on behind the token
    have hext : p' ≠ .symbol → ∀ d w', p'.text = c :: v ++ d :: w' → z'.head? ≠ some d := by
      intro hp' d w' htext hd
      obtain ⟨hp, hv⟩ | ⟨-, c', v', hv, hstart, -, hz'⟩ := found_text hmem ht hmatch hne
      · -- of a literal, which no other text goes on
        have := text_prefix_free _ hmem _ hmem' ht ht' hp hp' (by simp [← hv, htext])
        rw [← hv, htext] at this
        simpa using congrArg List.length this
      · -- of a symbol, and then `d` would belong to it
        cases hv
        have hall := text_of_word _ hmem' ht' hp' (by simpa [htext] using hstart)
        have hchar : isSymbolChar d = true :=
          List.all_eq_true.mp hall d (by simp [htext])
        obtain hlayout | hhead := hz d hd
        · rw [isSymbolChar_eq_false hlayout] at hchar
          cases hchar
        · rw [hz' d hhead] at hchar
          cases hchar
    cases p' with
    | literal text =>
      -- a literal is there or not by the text of the token alone
      have hiff : text <+: c :: v ++ z' ↔ text <+: c :: v ++ z :=
        prefix_before (fun h => hle _ (by rw [Pattern.matchLen, if_pos h])) (hext nofun)
      simp only [Pattern.matchLen, hiff]
    | space =>
      -- layout is not in question here
      obtain rfl : t' = .space := type_unique hmem' (by decide)
      exact absurd (by decide) ht'
    | comment =>
      obtain rfl : t' = .comment := type_unique hmem' (by decide)
      exact absurd (by decide) ht'
    | eof =>
      -- the text does not end with the token
      have hend : ∀ y, ¬ (c :: v ++ y = [] ∨ c :: v ++ y = ['\n']) := by
        intro y h
        obtain h | h := h
        · cases h
        · obtain ⟨rfl, -⟩ := List.cons.inj h
          exact absurd hc (by decide)
      have hiff : ['%', '%'] <+: c :: v ++ z' ↔ ['%', '%'] <+: c :: v ++ z :=
        prefix_before (fun h => hle _ (by simp only [Pattern.matchLen, hend, if_false, h]; rfl))
          (hext nofun)
      simp only [Pattern.matchLen, hend, if_false, hiff]
    | symbol =>
      -- both symbols end where the token does
      by_cases hstart : isSymbolStart c = true
      · have hlen := hle _ (by simp only [List.cons_append, Pattern.matchLen, hstart]; rfl)
        have hrun : (v ++ z').takeWhile isSymbolChar = (v ++ z).takeWhile isSymbolChar :=
          takeWhile_before (by simpa using hlen) hz
        simp only [List.cons_append, Pattern.matchLen, hrun]
      · simp [Pattern.matchLen, hstart]

/-- A token is found again before other text. -/
theorem bestMatch_before {restrict : List TokType} {t : TokType} {v z z' : List Char}
    (hbest : bestMatch restrict (v ++ z) = some (t, v.length)) (ht : t ∉ ignore) (hne : v ≠ [])
    (hz : Follows z z') : bestMatch restrict (v ++ z') = some (t, v.length) := by
  obtain ⟨⟨p, hmem, -, hmatch⟩, hmax⟩ := bestMatch_inv hbest
  rw [← hbest]
  exact bestMatch_congr fun t' p' hmem' hadm =>
    matchLen_before hmem ht hmatch hne hz hmem' fun m hm => hmax t' p' m hmem' hadm hm

/-- **Tokens before other text**: a token with a text is found again behind the same layout,
    before any text that starts alike or with layout. -/
theorem token_before {restrict : List TokType} {s rest rest' : List Char}
    {tok : Token TokType (List Char)} (h : token restrict s = some (tok, rest))
    (hne : tok.value ≠ []) (hrest : Follows rest rest') :
    token restrict (tok.layout ++ (tok.value ++ rest')) = some (tok, rest') := by
  obtain ⟨-, ht, hbest, hclosed⟩ := token_inv h
  rw [token_closed restrict (hclosed hne),
    token_of_found (bestMatch_before hbest ht hne hrest) ht]
  simp [behind]

/-- Only the end of the text has no text. -/
theorem token_value_ne_nil {restrict : List TokType} {s rest : List Char}
    {tok : Token TokType (List Char)} (h : token restrict s = some (tok, rest))
    (ht : tok.type ≠ .eof) : tok.value ≠ [] := by
  intro hnil
  obtain ⟨-, -, hbest, -⟩ := token_inv h
  obtain ⟨⟨p, hmem, -, hmatch⟩, -⟩ := bestMatch_inv hbest
  rw [hnil] at hmatch
  obtain ⟨rfl, -⟩ := matchLen_eq_zero hmem hmatch
  exact ht (type_unique hmem (by decide))

/-- The text of a symbol has the form of one. -/
theorem token_symbol {restrict : List TokType} {s rest : List Char}
    {tok : Token TokType (List Char)} (h : token restrict s = some (tok, rest))
    (ht : tok.type = .symbol) :
    ∃ c cs, tok.value = c :: cs ∧ isSymbolStart c = true ∧ ∀ d ∈ cs, isSymbolChar d = true := by
  have hne := token_value_ne_nil h (by rw [ht]; decide)
  obtain ⟨-, hnot, hbest, -⟩ := token_inv h
  obtain ⟨⟨p, hmem, -, hmatch⟩, -⟩ := bestMatch_inv hbest
  obtain ⟨hp, -⟩ | ⟨-, c, cs, hv, hstart, hall, -⟩ := found_text hmem hnot hmatch hne
  · rw [ht] at hmem
    exact absurd (pattern_unique hmem (by decide)) hp
  · exact ⟨c, cs, hv, hstart, hall⟩

end SimpleRpc.Gen
