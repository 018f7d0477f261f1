import Mathlib.Data.List.Basic

/-!
# Parsers over a Scanner with One Token of Look-ahead

A parser asks its scanner for the type of the next token or for its text, and each time names the
types it would take. What a token is may depend on these types. The scanner holds back a token
that was only looked at.

## Layers

- **Requests**: `Parser`, the requests of a parser, each with what the parser does next
- **Scanner**: `Scanner.peek` and `Scanner.scan` over a function that reads one token, and `run`,
  which keeps a record of the tokens read
- **Replay**: a parser sees the types and texts of tokens only, so that it does the same on every
  input with these tokens
- **Fuel**: `Below`, parsers that differ in what they give up on

## Main results

- `run_replay`, `run_stuck`: another input with the same tokens, up to its end or up to an error
- `Below.run`: with more fuel a parser returns the same
- `Below.run_scan_last`: the token of a type that is scanned only at the end is the last one
-/

namespace SimpleRpc.Lib

/-! ## Requests -/

/-- A token of the type `type` with the text `value`, and the text skipped before it. -/
structure Token (τ ν : Type) where
  layout : ν
  type : τ
  value : ν

/-- What a parser asks of its scanner. -/
inductive Request (τ : Type) where
  /-- the type of the next token, which is one of `types` -/
  | peek (types : List τ)
  /-- the text of the next token, which is of the type `type` -/
  | scan (type : τ)

abbrev Request.Answer {τ : Type} (ν : Type) : Request τ → Type
  | .peek _ => τ
  | .scan _ => ν

/-- A parser by its requests. -/
inductive Parser (τ ν α : Type) : Type where
  | fail
  | pure (a : α)
  | ask (req : Request τ) (next : req.Answer ν → Parser τ ν α)

namespace Parser

variable {τ ν α β : Type}

def bind : Parser τ ν α → (α → Parser τ ν β) → Parser τ ν β
  | .fail, _ => .fail
  | .pure a, f => f a
  | .ask req next, f => .ask req fun x => (next x).bind f

instance : Monad (Parser τ ν) where
  pure := .pure
  bind := .bind

theorem bind_eq (p : Parser τ ν α) (f : α → Parser τ ν β) : p >>= f = p.bind f := rfl

def peek (types : List τ) : Parser τ ν τ := .ask (.peek types) .pure

def scan (type : τ) : Parser τ ν ν := .ask (.scan type) .pure

/-- `while cond: body`, over the variables `b`, for less than `fuel` rounds. -/
def whileDo (cond : Parser τ ν Bool) (body : β → Parser τ ν β) : Nat → β → Parser τ ν β
  | 0, _ => .fail
  | fuel + 1, b => do
    if ← cond then whileDo cond body fuel (← body b) else return b

end Parser

/-! ## Scanner -/

/-- The scanner: what it has not read, and the token that was only looked at with the types that
    were given for it. -/
structure Scanner (τ ν σ : Type) where
  input : σ
  lastToken : Option (τ × ν)
  lastTypes : List τ

/-- An entry of the record: the types a token was read for, and the token. -/
structure Read (τ ν : Type) where
  restrict : List τ
  token : Token τ ν

/-- The part of an entry that a parser can see. -/
def Read.key {τ ν : Type} (r : Read τ ν) : List τ × τ × ν :=
  (r.restrict, r.token.type, r.token.value)

section

variable {τ ν σ : Type}

/-- The tokens of a record stand one behind the other in the input. -/
inductive Reads (token : List τ → σ → Option (Token τ ν × σ)) : σ → List (Read τ ν) → σ → Prop
  | nil (s : σ) : Reads token s [] s
  | cons {s s' s'' : σ} {r : Read τ ν} {log : List (Read τ ν)}
      (htok : token r.restrict s = some (r.token, s')) (hrest : Reads token s' log s'') :
      Reads token s (r :: log) s''

variable {token : List τ → σ → Option (Token τ ν × σ)}

theorem Reads.cons_inv {s s'' : σ} {r : Read τ ν} {log : List (Read τ ν)}
    (h : Reads token s (r :: log) s'') :
    ∃ s', token r.restrict s = some (r.token, s') ∧ Reads token s' log s'' := by
  cases h with
  | cons htok hrest => exact ⟨_, htok, hrest⟩

theorem Reads.nil_inv {s s' : σ} (h : Reads token s [] s') : s' = s := by
  cases h
  rfl

theorem Reads.append {s s' s'' : σ} {log log' : List (Read τ ν)} (h : Reads token s log s')
    (h' : Reads token s' log' s'') : Reads token s (log ++ log') s'' := by
  induction h with
  | nil => exact h'
  | cons htok hrest ih => exact .cons htok (ih h')

theorem Reads.append_inv {s s'' : σ} {log log' : List (Read τ ν)}
    (h : Reads token s (log ++ log') s'') :
    ∃ s', Reads token s log s' ∧ Reads token s' log' s'' := by
  induction log generalizing s with
  | nil => exact ⟨s, .nil s, h⟩
  | cons r log ih =>
    obtain ⟨s₁, htok, hrest⟩ := h.cons_inv
    obtain ⟨s', hlog, hlog'⟩ := ih hrest
    exact ⟨s', .cons htok hlog, hlog'⟩

end

section

variable {τ ν σ α β : Type} [DecidableEq τ] (token : List τ → σ → Option (Token τ ν × σ))

/-- The type of the next token. It is looked up among `types`, unless a token is held back: then
    `types` must be among the types given for that one. -/
def Scanner.peek (s : Scanner τ ν σ) (types : List τ) :
    Option (τ × List (Read τ ν) × Scanner τ ν σ) :=
  match s.lastToken with
  | none =>
    -- the token is read now and held back
    (token types s.input).map fun (tok, rest) =>
      (tok.type, [⟨types, tok⟩], ⟨rest, some (tok.type, tok.value), types⟩)
  | some (type, _) =>
    -- with another set of types it might have been another token
    if s.lastTypes ≠ [] ∧ ∃ t ∈ types, t ∉ s.lastTypes then none else some (type, [], s)

/-- The text of the next token, which is passed. -/
def Scanner.scan (s : Scanner τ ν σ) (type : τ) : Option (ν × List (Read τ ν) × Scanner τ ν σ) :=
  match s.lastToken with
  | none =>
    (token [type] s.input).bind fun (tok, rest) =>
      if tok.type ≠ type then none
      else some (tok.value, [⟨[type], tok⟩], { s with input := rest })
  | some (type', value) =>
    if s.lastTypes ≠ [] ∧ type ∉ s.lastTypes then none
    else if type' ≠ type then none
    else some (value, [], { s with lastToken := none })

def Scanner.ask (s : Scanner τ ν σ) :
    (req : Request τ) → Option (req.Answer ν × List (Read τ ν) × Scanner τ ν σ)
  | .peek types => s.peek token types
  | .scan type => s.scan token type

namespace Parser

/-- Run a parser; returns the tokens read as well. -/
def run : Parser τ ν α → Scanner τ ν σ → Option (α × List (Read τ ν) × Scanner τ ν σ)
  | .fail, _ => none
  | .pure a, s => some (a, [], s)
  | .ask req next, s =>
    (s.ask token req).bind fun (x, log, s₁) =>
      ((next x).run s₁).map fun (a, log', s₂) => (a, log ++ log', s₂)

end Parser

variable {token}

theorem Scanner.peek_eq_some {s s' : Scanner τ ν σ} {types : List τ} {t : τ}
    {log : List (Read τ ν)} (h : s.peek token types = some (t, log, s')) :
    (∃ tok rest, s.lastToken = none ∧ token types s.input = some (tok, rest) ∧ t = tok.type ∧
      log = [⟨types, tok⟩] ∧ s' = ⟨rest, some (tok.type, tok.value), types⟩) ∨
    ∃ value, s.lastToken = some (t, value) ∧ log = [] ∧ s' = s ∧
      ¬ (s.lastTypes ≠ [] ∧ ∃ t ∈ types, t ∉ s.lastTypes) := by
  rw [Scanner.peek] at h
  cases hlast : s.lastToken with
  | none =>
    simp only [hlast, Option.map_eq_some_iff] at h
    obtain ⟨⟨tok, rest⟩, htok, heq⟩ := h
    cases heq
    exact .inl ⟨tok, rest, rfl, htok, rfl, rfl, rfl⟩
  | some last =>
    obtain ⟨type, value⟩ := last
    simp only [hlast] at h
    split at h
    · cases h
    · rename_i hsub
      cases h
      exact .inr ⟨value, rfl, rfl, rfl, hsub⟩

theorem Scanner.scan_eq_some {s s' : Scanner τ ν σ} {type : τ} {value : ν}
    {log : List (Read τ ν)} (h : s.scan token type = some (value, log, s')) :
    (∃ tok rest, s.lastToken = none ∧ token [type] s.input = some (tok, rest) ∧
      tok.type = type ∧ value = tok.value ∧ log = [⟨[type], tok⟩] ∧
      s' = { s with input := rest }) ∨
    s.lastToken = some (type, value) ∧ log = [] ∧ s' = { s with lastToken := none } ∧
      ¬ (s.lastTypes ≠ [] ∧ type ∉ s.lastTypes) := by
  rw [Scanner.scan] at h
  cases hlast : s.lastToken with
  | none =>
    -- no token is held back, so one is read
    simp only [hlast, Option.bind_eq_some_iff] at h
    obtain ⟨⟨tok, rest⟩, htok, heq⟩ := h
    by_cases htype : tok.type = type
    · rw [if_neg (not_not.mpr htype)] at heq
      cases heq
      exact .inl ⟨tok, rest, rfl, htok, htype, rfl, rfl, rfl⟩
    · rw [if_pos htype] at heq
      cases heq
  | some last =>
    -- the one that is held back is given out
    obtain ⟨type', value'⟩ := last
    simp only [hlast] at h
    split at h
    · cases h
    · rename_i hsub
      split at h
      · cases h
      · rename_i htype
        cases h
        exact .inr ⟨by rw [not_not.mp htype], rfl, rfl, hsub⟩

theorem Parser.run_ask {req : Request τ} {next : req.Answer ν → Parser τ ν α}
    {s s₂ : Scanner τ ν σ} {a : α} {log : List (Read τ ν)}
    (h : (Parser.ask req next).run token s = some (a, log, s₂)) :
    ∃ x log₁ s₁ log₂, s.ask token req = some (x, log₁, s₁) ∧
      (next x).run token s₁ = some (a, log₂, s₂) ∧ log = log₁ ++ log₂ := by
  rw [Parser.run, Option.bind_eq_some_iff] at h
  obtain ⟨⟨x, log₁, s₁⟩, hask, hrest⟩ := h
  rw [Option.map_eq_some_iff] at hrest
  obtain ⟨⟨a', log₂, s₂'⟩, hrun, heq⟩ := hrest
  cases heq
  exact ⟨x, log₁, s₁, log₂, hask, hrun, rfl⟩

theorem Parser.run_ask_of_eq {req : Request τ} {next : req.Answer ν → Parser τ ν α}
    {s s₁ s₂ : Scanner τ ν σ} {x : req.Answer ν} {a : α} {log₁ log₂ : List (Read τ ν)}
    (hask : s.ask token req = some (x, log₁, s₁))
    (hrun : (next x).run token s₁ = some (a, log₂, s₂)) :
    (Parser.ask req next).run token s = some (a, log₁ ++ log₂, s₂) := by
  simp only [Parser.run, hask, Option.bind_some, hrun, Option.map_some]

theorem Parser.run_bind_of_eq {p : Parser τ ν α} {f : α → Parser τ ν β} {s s₁ s₂ : Scanner τ ν σ}
    {a : α} {b : β} {log₁ log₂ : List (Read τ ν)} (hfirst : p.run token s = some (a, log₁, s₁))
    (hsecond : (f a).run token s₁ = some (b, log₂, s₂)) :
    (p >>= f).run token s = some (b, log₁ ++ log₂, s₂) := by
  rw [Parser.bind_eq]
  induction p generalizing s log₁ with
  | fail => cases hfirst
  | pure a =>
    cases hfirst
    exact hsecond
  | ask req next ih =>
    obtain ⟨x, log₃, s₃, log₄, hask, hrun, rfl⟩ := Parser.run_ask hfirst
    rw [List.append_assoc]
    exact Parser.run_ask_of_eq hask (ih x hrun)

theorem Parser.run_bind {p : Parser τ ν α} {f : α → Parser τ ν β} {s s₂ : Scanner τ ν σ} {b : β}
    {log : List (Read τ ν)} (h : (p >>= f).run token s = some (b, log, s₂)) :
    ∃ a log₁ s₁ log₂, p.run token s = some (a, log₁, s₁) ∧
      (f a).run token s₁ = some (b, log₂, s₂) ∧ log = log₁ ++ log₂ := by
  rw [Parser.bind_eq] at h
  -- over the requests of `p`: the record of `f` comes behind that of all of them
  induction p generalizing s log with
  | fail => cases h
  | pure a => exact ⟨a, [], s, log, rfl, h, rfl⟩
  | ask req next ih =>
    obtain ⟨x, log₁, s₁, log₂, hask, hrun, rfl⟩ := Parser.run_ask h
    obtain ⟨a, log₃, s₃, log₄, hfirst, hsecond, rfl⟩ := ih x hrun
    exact ⟨a, log₁ ++ log₃, s₃, log₄, Parser.run_ask_of_eq hask hfirst, hsecond,
      (List.append_assoc ..).symm⟩

/-! ## Replay -/

theorem Scanner.ask_reads {s s' : Scanner τ ν σ} {req : Request τ} {x : req.Answer ν}
    {log : List (Read τ ν)} (h : s.ask token req = some (x, log, s')) :
    Reads token s.input log s'.input := by
  cases req with
  | peek types =>
    obtain ⟨tok, rest, -, htok, -, rfl, rfl⟩ | ⟨value, -, rfl, rfl, -⟩ := Scanner.peek_eq_some h
    · exact .cons htok (.nil rest)
    · exact .nil _
  | scan type =>
    obtain ⟨tok, rest, -, htok, -, -, rfl, rfl⟩ | ⟨-, rfl, rfl, -⟩ := Scanner.scan_eq_some h
    · exact .cons htok (.nil rest)
    · exact .nil _

theorem Parser.run_reads {p : Parser τ ν α} {s s' : Scanner τ ν σ} {a : α}
    {log : List (Read τ ν)} (h : p.run token s = some (a, log, s')) :
    Reads token s.input log s'.input := by
  induction p generalizing s log with
  | fail => cases h
  | pure a =>
    cases h
    exact .nil _
  | ask req next ih =>
    obtain ⟨x, log₁, s₁, log₂, hask, hrun, rfl⟩ := Parser.run_ask h
    exact (Scanner.ask_reads hask).append (ih x hrun)

/-- One request, answered from another input. -/
theorem Scanner.ask_replay {s s' : Scanner τ ν σ} {req : Request τ} {x : req.Answer ν}
    {log log' : List (Read τ ν)} {i u : σ} (h : s.ask token req = some (x, log, s'))
    (hkey : log'.map Read.key = log.map Read.key) (hreads : Reads token i log' u) :
    { s with input := i }.ask token req = some (x, log', { s' with input := u }) := by
  -- a record of one entry with the same key
  have hone : ∀ {types : List τ} {tok : Token τ ν}, log = [⟨types, tok⟩] →
      ∃ tok', log' = [⟨types, tok'⟩] ∧ tok'.type = tok.type ∧ tok'.value = tok.value ∧
        token types i = some (tok', u) := by
    rintro types tok rfl
    obtain ⟨⟨types', tok'⟩, rfl, hr⟩ := List.map_eq_singleton_iff.mp hkey
    simp only [Read.key, Prod.mk.injEq] at hr
    obtain ⟨rfl, htype, hvalue⟩ := hr
    obtain ⟨u', htok', hnil⟩ := hreads.cons_inv
    rw [hnil.nil_inv]
    exact ⟨tok', rfl, htype, hvalue, htok'⟩
  have hzero : log = [] → log' = [] ∧ u = i := by
    rintro rfl
    obtain rfl := List.map_eq_nil_iff.mp hkey
    exact ⟨rfl, hreads.nil_inv⟩
  cases req with
  | peek types =>
    obtain ⟨tok, rest, hnone, -, rfl, hlog, rfl⟩ | ⟨value, hsome, hlog, rfl, hsub⟩ :=
      Scanner.peek_eq_some h
    · -- a token is read, from the other input the same
      obtain ⟨tok', rfl, htype, hvalue, htok'⟩ := hone hlog
      simp [Scanner.ask, Scanner.peek, hnone, htok', htype, hvalue]
    · -- the token that is held back is looked at
      obtain ⟨rfl, rfl⟩ := hzero hlog
      simp only [Scanner.ask, Scanner.peek, hsome]
      rw [if_neg hsub]
  | scan type =>
    obtain ⟨tok, rest, hnone, -, htype, rfl, hlog, rfl⟩ | ⟨hsome, hlog, rfl, hsub⟩ :=
      Scanner.scan_eq_some h
    · -- a token is read, from the other input the same
      obtain ⟨tok', rfl, htype', hvalue, htok'⟩ := hone hlog
      simp [Scanner.ask, Scanner.scan, hnone, htok', htype', htype, hvalue]
    · -- the token that is held back is given out
      obtain ⟨rfl, rfl⟩ := hzero hlog
      simp only [Scanner.ask, Scanner.scan, hsome]
      rw [if_neg hsub, if_neg (not_not.mpr rfl)]

/-- **Replay**: what a parser returns depends on the types and texts of the tokens it reads only,
    not on the text skipped between them. -/
theorem Parser.run_replay {p : Parser τ ν α} {s s' : Scanner τ ν σ} {a : α}
    {log log' : List (Read τ ν)} {i u : σ} (h : p.run token s = some (a, log, s'))
    (hkey : log'.map Read.key = log.map Read.key) (hreads : Reads token i log' u) :
    p.run token { s with input := i } = some (a, log', { s' with input := u }) := by
  -- the tokens of the first request are the front of both records
  induction p generalizing s log log' i with
  | fail => cases h
  | pure b =>
    cases h
    obtain rfl := List.map_eq_nil_iff.mp hkey
    rw [hreads.nil_inv]
    rfl
  | ask req next ih =>
    obtain ⟨x, log₁, s₁, log₂, hask, hrun, rfl⟩ := Parser.run_ask h
    rw [List.map_append] at hkey
    obtain ⟨log₁', log₂', rfl, hkey₁, hkey₂⟩ := List.map_eq_append_iff.mp hkey
    obtain ⟨m, hreads₁, hreads₂⟩ := hreads.append_inv
    exact Parser.run_ask_of_eq (Scanner.ask_replay hask hkey₁ hreads₁) (ih x hrun hkey₂ hreads₂)

/-- A request that reads a token finds none in another input. -/
theorem Scanner.ask_stuck {s s' : Scanner τ ν σ} {req : Request τ} {x : req.Answer ν}
    {r : Read τ ν} {i : σ} (h : s.ask token req = some (x, [r], s'))
    (hstuck : token r.restrict i = none) : { s with input := i }.ask token req = none := by
  cases req with
  | peek types =>
    obtain ⟨tok, rest, hnone, -, -, heq, -⟩ | ⟨_, _, heq, _⟩ := Scanner.peek_eq_some h
    · cases heq
      simp [Scanner.ask, Scanner.peek, hnone, hstuck]
    · cases heq
  | scan type =>
    obtain ⟨tok, rest, hnone, -, -, -, heq, -⟩ | ⟨_, heq, _⟩ := Scanner.scan_eq_some h
    · cases heq
      simp [Scanner.ask, Scanner.scan, hnone, hstuck]
    · cases heq

theorem Scanner.ask_log {s s' : Scanner τ ν σ} {req : Request τ} {x : req.Answer ν}
    {log : List (Read τ ν)} (h : s.ask token req = some (x, log, s')) :
    log = [] ∨ ∃ r, log = [r] := by
  cases req with
  | peek types =>
    obtain ⟨_, _, _, _, _, hlog, _⟩ | ⟨_, _, hlog, _⟩ := Scanner.peek_eq_some h
    · exact .inr ⟨_, hlog⟩
    · exact .inl hlog
  | scan type =>
    obtain ⟨_, _, _, _, _, _, hlog, _⟩ | ⟨_, hlog, _⟩ := Scanner.scan_eq_some h
    · exact .inr ⟨_, hlog⟩
    · exact .inl hlog

/-- On an input with the same tokens up to a point where there is none, the parser fails. -/
theorem Parser.run_stuck {p : Parser τ ν α} {s s' : Scanner τ ν σ} {a : α}
    {front front' back : List (Read τ ν)} {r : Read τ ν} {i m : σ}
    (h : p.run token s = some (a, front ++ r :: back, s'))
    (hkey : front'.map Read.key = front.map Read.key) (hreads : Reads token i front' m)
    (hstuck : token r.restrict m = none) : p.run token { s with input := i } = none := by
  induction p generalizing s front front' i with
  | fail => rfl
  | pure b => simp [Parser.run] at h
  | ask req next ih =>
    obtain ⟨x, log₁, s₁, log₂, hask, hrun, hlog⟩ := Parser.run_ask h
    obtain rfl | ⟨r₁, rfl⟩ := Scanner.ask_log hask
    · -- nothing is read: the request is answered alike, and the parser fails later
      rw [List.nil_append] at hlog
      rw [← hlog] at hrun
      have hask' := Scanner.ask_replay (i := i) hask rfl (.nil i)
      simp only [Parser.run, hask', Option.bind_some, ih x hrun hkey hreads, Option.map_none]
    · cases front with
      | nil =>
        -- the token in question is the one that is read now
        obtain rfl := List.map_eq_nil_iff.mp hkey
        rw [hreads.nil_inv] at hstuck
        cases hlog
        rw [Parser.run, Scanner.ask_stuck hask hstuck]
        rfl
      | cons r' front =>
        -- it comes later; the one read now has its counterpart in the other input
        cases hlog
        obtain ⟨r₁', front', rfl, hkey₁, hkey₂⟩ := List.map_eq_cons_iff.mp hkey
        obtain ⟨i', htok, hreads⟩ := hreads.cons_inv
        have hask' := Scanner.ask_replay hask (by simpa using hkey₁) (.cons htok (.nil i'))
        simp only [Parser.run, hask', Option.bind_some, ih x hrun hkey₂ hreads, Option.map_none]

end

/-! ## Fuel -/

section

variable {τ ν σ α β : Type}

/-- The parser `q` makes the same requests as `p`, also where `p` gives up; none of those of `p` is
    a scan for the type `e`. -/
inductive Below (e : τ) : Parser τ ν α → Parser τ ν α → Prop
  | fail (q : Parser τ ν α) : Below e .fail q
  | pure (a : α) : Below e (.pure a) (.pure a)
  | ask (req : Request τ) {next next' : req.Answer ν → Parser τ ν α} (hreq : req ≠ .scan e)
      (hnext : ∀ x, Below e (next x) (next' x)) : Below e (.ask req next) (.ask req next')

namespace Below

variable {e : τ} {p q : Parser τ ν α}

theorem ret (a : α) : Below e (Pure.pure a : Parser τ ν α) (Pure.pure a) := .pure a

theorem peek (types : List τ) : Below e (Parser.peek types : Parser τ ν τ) (Parser.peek types) :=
  .ask _ nofun fun t => .pure t

theorem scan {type : τ} (h : type ≠ e) :
    Below e (Parser.scan type : Parser τ ν ν) (Parser.scan type) :=
  .ask _ (fun heq => h (Request.scan.inj heq)) fun value => .pure value

theorem bind {f g : α → Parser τ ν β} (h : Below e p q) (hf : ∀ a, Below e (f a) (g a)) :
    Below e (p >>= f) (q >>= g) := by
  rw [Parser.bind_eq, Parser.bind_eq]
  induction h with
  | fail q => exact .fail _
  | pure a => exact hf a
  | ask req hreq _ ih => exact .ask req hreq ih

theorem ite {c : Prop} [Decidable c] {p' q' : Parser τ ν α} (h : Below e p q)
    (h' : Below e p' q') : Below e (if c then p else p') (if c then q else q') := by
  split
  · exact h
  · exact h'

theorem whileDo {cond cond' : Parser τ ν Bool} {body body' : β → Parser τ ν β} {m n : Nat}
    (hle : m ≤ n) (hcond : Below e cond cond') (hbody : ∀ b, Below e (body b) (body' b)) (b : β) :
    Below e (Parser.whileDo cond body m b) (Parser.whileDo cond' body' n b) := by
  induction m generalizing n b with
  | zero => exact .fail _
  | succ m ih =>
    obtain ⟨n, rfl⟩ : ∃ k, n = k + 1 := ⟨n - 1, by omega⟩
    rw [Parser.whileDo, Parser.whileDo]
    exact hcond.bind fun _ => .ite ((hbody b).bind fun b' => ih (by omega) b') (.ret b)

end Below

/-- A token of the type `e` is held back. -/
def Waiting (e : τ) (s : Scanner τ ν σ) : Prop := ∃ value, s.lastToken = some (e, value)

/-- No token of the type `e` has been read, or it was the last one and is held back. -/
def Unscanned (e : τ) (log : List (Read τ ν)) (s : Scanner τ ν σ) : Prop :=
  (∀ r ∈ log, r.token.type ≠ e) ∧ ¬ Waiting e s ∨
  ∃ front r, log = front ++ [r] ∧ (∀ r ∈ front, r.token.type ≠ e) ∧ r.token.type = e ∧ Waiting e s

theorem Unscanned.cons {e : τ} {r : Read τ ν} {log : List (Read τ ν)} {s : Scanner τ ν σ}
    (hne : r.token.type ≠ e) (h : Unscanned e log s) : Unscanned e (r :: log) s := by
  obtain ⟨hall, hnot⟩ | ⟨front, r', rfl, hall, hr', hwaiting⟩ := h
  · exact .inl ⟨List.forall_mem_cons.mpr ⟨hne, hall⟩, hnot⟩
  · exact .inr ⟨r :: front, r', rfl, List.forall_mem_cons.mpr ⟨hne, hall⟩, hr', hwaiting⟩

end

section

variable {τ ν σ α β : Type} [DecidableEq τ] {token : List τ → σ → Option (Token τ ν × σ)}

/-- **Fuel**: what `p` returns, `q` returns too, from the same tokens. -/
theorem Below.run {e : τ} {p q : Parser τ ν α} (h : Below e p q) {s s' : Scanner τ ν σ} {a : α}
    {log : List (Read τ ν)} (hrun : p.run token s = some (a, log, s')) :
    q.run token s = some (a, log, s') := by
  induction h generalizing s log with
  | fail q => cases hrun
  | pure a => exact hrun
  | ask req _ _ ih =>
    obtain ⟨x, log₁, s₁, log₂, hask, hrest, rfl⟩ := Parser.run_ask hrun
    exact Parser.run_ask_of_eq hask (ih x hrest)

/-- A request other than the scan for `e` leaves the token of this type where it is, and no other
    token is read behind it. -/
theorem Scanner.ask_waiting {e : τ} {s s' : Scanner τ ν σ} {req : Request τ} {x : req.Answer ν}
    {log : List (Read τ ν)} (hreq : req ≠ .scan e) (h : s.ask token req = some (x, log, s'))
    (hwaiting : Waiting e s) : log = [] ∧ Waiting e s' := by
  obtain ⟨value, hlast⟩ := hwaiting
  cases req with
  | peek types =>
    obtain ⟨_, _, hnone, _⟩ | ⟨_, _, hlog, rfl, _⟩ := Scanner.peek_eq_some h
    · rw [hlast] at hnone
      cases hnone
    · exact ⟨hlog, value, hlast⟩
  | scan type =>
    obtain ⟨_, _, hnone, _⟩ | ⟨hsome, _⟩ := Scanner.scan_eq_some h
    · rw [hlast] at hnone
      cases hnone
    · rw [hlast] at hsome
      cases hsome
      exact absurd rfl hreq

theorem Scanner.ask_unscanned {e : τ} {s s' : Scanner τ ν σ} {req : Request τ} {x : req.Answer ν}
    {log : List (Read τ ν)} (hreq : req ≠ .scan e) (h : s.ask token req = some (x, log, s'))
    (hnot : ¬ Waiting e s) : Unscanned e log s' := by
  cases req with
  | peek types =>
    obtain ⟨tok, rest, -, -, -, rfl, rfl⟩ | ⟨_, -, rfl, rfl, -⟩ := Scanner.peek_eq_some h
    · by_cases htype : tok.type = e
      · exact .inr ⟨[], _, rfl, by simp, htype, tok.value, by rw [htype]⟩
      · refine .inl ⟨by simpa using htype, ?_⟩
        rintro ⟨value, heq⟩
        cases heq
        exact htype rfl
    · exact .inl ⟨by simp, hnot⟩
  | scan type =>
    have hne : type ≠ e := fun heq => hreq (by rw [heq])
    obtain ⟨tok, rest, hnone, -, htype, -, rfl, rfl⟩ | ⟨-, rfl, rfl, -⟩ := Scanner.scan_eq_some h
    · exact .inl ⟨by simpa [htype] using hne, hnot⟩
    · exact .inl ⟨by simp, by simp [Waiting]⟩

theorem Below.waiting {e : τ} {p q : Parser τ ν α} (h : Below e p q) {s s' : Scanner τ ν σ} {a : α}
    {log : List (Read τ ν)} (hrun : p.run token s = some (a, log, s')) (hwaiting : Waiting e s) :
    log = [] ∧ Waiting e s' := by
  induction h generalizing s log with
  | fail q => cases hrun
  | pure a =>
    cases hrun
    exact ⟨rfl, hwaiting⟩
  | ask req hreq _ ih =>
    obtain ⟨x, log₁, s₁, log₂, hask, hrest, rfl⟩ := Parser.run_ask hrun
    obtain ⟨rfl, hwaiting₁⟩ := Scanner.ask_waiting hreq hask hwaiting
    exact ih x hrest hwaiting₁

theorem Below.unscanned {e : τ} {p q : Parser τ ν α} (h : Below e p q) {s s' : Scanner τ ν σ}
    {a : α} {log : List (Read τ ν)} (hrun : p.run token s = some (a, log, s'))
    (hnot : ¬ Waiting e s) : Unscanned e log s' := by
  induction h generalizing s log with
  | fail q => cases hrun
  | pure a =>
    -- no token is read
    cases hrun
    exact .inl ⟨by simp, hnot⟩
  | ask req hreq hbelow ih =>
    obtain ⟨x, log₁, s₁, log₂, hask, hrest, rfl⟩ := Parser.run_ask hrun
    have hfirst := Scanner.ask_unscanned hreq hask hnot
    by_cases hwaiting : Waiting e s₁
    · -- from here on no token is read
      obtain ⟨rfl, hwaiting'⟩ := (hbelow x).waiting hrest hwaiting
      obtain ⟨-, hnot₁⟩ | ⟨front, r, rfl, hall, hr, -⟩ := hfirst
      · exact absurd hwaiting hnot₁
      · exact .inr ⟨front, r, by simp, hall, hr, hwaiting'⟩
    · -- the token is still ahead
      have hsecond := ih x hrest hwaiting
      obtain rfl | ⟨r, rfl⟩ := Scanner.ask_log hask
      · exact hsecond
      · obtain ⟨hall, -⟩ | ⟨_, _, _, _, _, hwaiting'⟩ := hfirst
        · exact hsecond.cons (hall r (List.mem_singleton_self r))
        · exact absurd hwaiting' hwaiting

/-- **The last token**: when the type `e` is scanned at the end only, its token is the last one
    that is read, and the only one of this type. -/
theorem Below.run_scan_last {e : τ} {p q : Parser τ ν α} (h : Below e p q) {f : α → β}
    {s s' : Scanner τ ν σ} {b : β} {log : List (Read τ ν)} (hnot : ¬ Waiting e s)
    (hrun : (p >>= fun a => Parser.scan e >>= fun _ => Pure.pure (f a)).run token s =
      some (b, log, s')) :
    ∃ front r, log = front ++ [r] ∧ (∀ r ∈ front, r.token.type ≠ e) ∧ r.token.type = e := by
  obtain ⟨a, log₁, s₁, log₂, hbody, hscan, rfl⟩ := Parser.run_bind hrun
  have hlog₁ := h.unscanned hbody hnot
  obtain ⟨value, log₃, s₂, log₄, hask, hend, rfl⟩ := Parser.run_ask hscan
  cases hend
  rw [List.append_nil]
  -- the scan reads the token itself, or finds it held back as the last one of the body
  obtain ⟨tok, rest, hnone, -, htype, -, rfl, -⟩ | ⟨hsome, rfl, -, -⟩ := Scanner.scan_eq_some hask
  · obtain ⟨hall, -⟩ | ⟨_, _, _, _, _, v, hlast⟩ := hlog₁
    · exact ⟨log₁, _, rfl, hall, htype⟩
    · rw [hnone] at hlast
      cases hlast
  · obtain ⟨-, hno⟩ | ⟨front, r, rfl, hall, hr, -⟩ := hlog₁
    · exact absurd ⟨value, hsome⟩ hno
    · exact ⟨front, r, by simp, hall, hr⟩

end

end SimpleRpc.Lib
