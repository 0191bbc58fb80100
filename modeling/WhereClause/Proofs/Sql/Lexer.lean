import WhereClause.Proofs.Sql.Quoted
import WhereClause.Proofs.Sql.Numeral

/-!
# Tokens of SQL

The text of a condition as a database reads it. A character that starts no token, an open quote and
the start of a comment have no reading.

* `lex`       the tokens of a text;
* `Lexes`     a text has some tokens wherever a token may end behind it, and `Opens` the same
              whatever stands behind it. They go together by `append` and `intercalate`;
* `lexes_string`, `lexes_name`  what is quoted is one token, with the text that it was.
-/

set_option autoImplicit false
set_option linter.unusedVariables false

namespace WhereClause.Sql

open WhereClause.Text

inductive Token where
  /-- a quoted name with dots between its segments -/
  | name (segments : List String)
  | string (s : String)
  | number (text : String)
  | word (text : String)
  | symbol (text : String)
  deriving DecidableEq

def Token.name? : Token → Option (List String)
  | .name ss => some ss
  | _ => none

def Token.string? : Token → Option String
  | .string s => some s
  | _ => none

/-- a token without what a name or a string says -/
def Token.blank : Token → Token
  | .name _ => .name []
  | .string _ => .string ""
  | t => t

/-! ## tokens -/

/-- a symbol; two hyphens start a comment -/
def readSymbol : List Char → Option (Token × List Char)
  | '-' :: '-' :: _ => none
  | '!' :: '=' :: cs => some (.symbol "!=", cs)
  | '<' :: '>' :: cs => some (.symbol "<>", cs)
  | '<' :: '=' :: cs => some (.symbol "<=", cs)
  | '>' :: '=' :: cs => some (.symbol ">=", cs)
  | c :: cs =>
    if c ∈ ['(', ')', ',', '=', '<', '>', '-', ';'] then some (.symbol (String.singleton c), cs)
    else none
  | [] => none

/-- the token that a character starts, and what stands behind it -/
def readToken (d : Dialect) (c : Char) (cs : List Char) : Option (Token × List Char) :=
  if c = d.identifierQuote then
    (readName d.identifierQuote cs).map fun (ss, rest) => (.name ss, rest)
  else if c = '\'' then
    (readQuoted '\'' (d = .mysql) .plain cs).map fun (s, rest) => (.string (String.ofList s), rest)
  else if c.isDigit then
    (readNumeral (c :: cs)).map fun (s, rest) => (.number (String.ofList s), rest)
  else if isWordChar c then
    some (.word (String.ofList (c :: cs.takeWhile isWordChar)), cs.dropWhile isWordChar)
  else readSymbol (c :: cs)

def isBlankSpace (c : Char) : Bool := c = ' ' || c = '\t' || c = '\n' || c = '\r'

theorem length_readSymbol {cs rest : List Char} {t : Token}
    (h : readSymbol cs = some (t, rest)) : rest.length < cs.length := by
  unfold readSymbol at h
  split at h
  · exact nomatch h
  · cases h
    exact Nat.lt_succ_of_lt (Nat.lt_succ_self _)
  · cases h
    exact Nat.lt_succ_of_lt (Nat.lt_succ_self _)
  · cases h
    exact Nat.lt_succ_of_lt (Nat.lt_succ_self _)
  · cases h
    exact Nat.lt_succ_of_lt (Nat.lt_succ_self _)
  · split at h
    · cases h
      exact Nat.lt_succ_self _
    · exact nomatch h
  · exact nomatch h

theorem length_readToken {d : Dialect} {c : Char} {cs rest : List Char} {t : Token}
    (h : readToken d c cs = some (t, rest)) : rest.length < (c :: cs).length := by
  unfold readToken at h
  split at h
  · obtain ⟨⟨ss, r⟩, hr, he⟩ := Option.map_eq_some_iff.mp h
    cases he
    exact Nat.lt_succ_of_lt (length_readName _ _ hr)
  · split at h
    · obtain ⟨⟨s, r⟩, hr, he⟩ := Option.map_eq_some_iff.mp h
      cases he
      exact Nat.lt_succ_of_le (length_readQuoted _ _ _ _ hr).1
    · split at h
      · next hc =>
        obtain ⟨⟨s, r⟩, hr, he⟩ := Option.map_eq_some_iff.mp h
        cases he
        exact length_readNumeral hc cs hr
      · split at h
        · cases h
          exact Nat.lt_succ_of_le (List.dropWhile_sublist isWordChar).length_le
        · exact length_readSymbol h

/-- the tokens of a text -/
def lex (d : Dialect) : List Char → Option (List Token)
  | [] => some []
  | c :: cs =>
    if isBlankSpace c then lex d cs
    else
      match h : readToken d c cs with
      | none => none
      | some (t, rest) => (lex d rest).map fun ts => t :: ts
termination_by cs => cs.length
decreasing_by
  · exact Nat.lt_succ_self _
  · exact length_readToken h

variable {d : Dialect}

theorem lex_nil : lex d [] = some [] := by rw [lex]

theorem lex_space (cs : List Char) : lex d (' ' :: cs) = lex d cs := by
  rw [lex, if_pos (by decide)]

theorem lex_token {c : Char} {cs rest : List Char} {t : Token} (hc : isBlankSpace c = false)
    (h : readToken d c cs = some (t, rest)) :
    lex d (c :: cs) = (lex d rest).map fun ts => t :: ts := by
  rw [lex, if_neg (by rw [hc]; exact Bool.false_ne_true)]
  split
  · next hn =>
    rw [h] at hn
    exact nomatch hn
  · next hs =>
    rw [h] at hs
    cases hs
    rfl

/-! ## texts with tokens -/

/-- a text at whose start a token has ended -/
def Separated (cs : List Char) : Prop := ∀ c, cs.head? = some c → c = ' ' ∨ c = ',' ∨ c = ')'

/-- a text that has tokens whatever stands behind it -/
def Opens (d : Dialect) (s : String) (ts : List Token) : Prop :=
  ∀ rest, lex d (s.toList ++ rest) = (lex d rest).map fun us => ts ++ us

/-- a text that has tokens where its last one may end -/
def Lexes (d : Dialect) (s : String) (ts : List Token) : Prop :=
  ∀ rest, Separated rest → lex d (s.toList ++ rest) = (lex d rest).map fun us => ts ++ us

theorem Separated.nil : Separated [] := fun _ h => nomatch h

theorem Separated.append {cs ds : List Char} (h : Separated cs) (h' : Separated ds) :
    Separated (cs ++ ds) := by
  cases cs with
  | nil => exact h'
  | cons c cs => exact h

theorem map_append_append (ts us : List Token) (r : Option (List Token)) :
    ((r.map fun vs => us ++ vs).map fun vs => ts ++ vs) = r.map fun vs => ts ++ us ++ vs := by
  cases r with
  | none => rfl
  | some vs => simp

theorem Opens.lexes {s : String} {ts : List Token} (h : Opens d s ts) : Lexes d s ts :=
  fun rest _ => h rest

theorem Opens.append {s t : String} {ts us : List Token} (h : Opens d s ts) (h' : Opens d t us) :
    Opens d (s ++ t) (ts ++ us) := by
  intro rest
  rw [String.toList_append, List.append_assoc, h, h', map_append_append]

namespace Lexes

theorem nil : Lexes d "" [] := by
  intro rest _
  show lex d rest = _
  cases lex d rest <;> rfl

/-- behind a text that ends of itself -/
theorem after {s t : String} {ts us : List Token} (h : Opens d s ts) (h' : Lexes d t us) :
    Lexes d (s ++ t) (ts ++ us) := by
  intro rest hr
  rw [String.toList_append, List.append_assoc, h, h' rest hr, map_append_append]

/-- before a text at whose start a token may end -/
theorem append {s t : String} {ts us : List Token} (h : Lexes d s ts) (h' : Lexes d t us)
    (ht : Separated t.toList) : Lexes d (s ++ t) (ts ++ us) := by
  intro rest hr
  rw [String.toList_append, List.append_assoc, h _ (ht.append hr), h' rest hr, map_append_append]

/-- the text ends, and with it the last token -/
theorem lex_eq {s : String} {ts : List Token} (h : Lexes d s ts) : lex d s.toList = some ts := by
  have hn := h [] .nil
  rw [List.append_nil, lex_nil] at hn
  rw [hn]
  simp

end Lexes

/-! ## single tokens -/

@[elab_as_elim]
theorem Separated.elim {motive : List Char → Prop} {rest : List Char} (h : Separated rest)
    (hn : motive []) (hs : ∀ cs, motive (' ' :: cs)) (hc : ∀ cs, motive (',' :: cs))
    (hp : ∀ cs, motive (')' :: cs)) : motive rest := by
  cases rest with
  | nil => exact hn
  | cons c cs =>
    rcases h c rfl with rfl | rfl | rfl
    · exact hs cs
    · exact hc cs
    · exact hp cs

theorem Separated.head_ne {rest : List Char} (h : Separated rest) {e : Char} (hs : e ≠ ' ')
    (hc : e ≠ ',') (hp : e ≠ ')') : rest.head? ≠ some e := by
  intro he
  rcases h e he with h | h | h
  · exact hs h
  · exact hc h
  · exact hp h

theorem Separated.endsNumeral {rest : List Char} (h : Separated rest) :
    endsNumeral rest = true :=
  h.elim rfl (fun _ => rfl) (fun _ => rfl) fun _ => rfl

theorem opens_open : Opens d "(" [.symbol "("] := by
  intro rest
  have h : readToken d '(' rest = some (.symbol "(", rest) := by cases d <;> rfl
  exact lex_token (by decide) h

theorem opens_close : Opens d ")" [.symbol ")"] := by
  intro rest
  have h : readToken d ')' rest = some (.symbol ")", rest) := by cases d <;> rfl
  exact lex_token (by decide) h

theorem opens_comma : Opens d ", " [.symbol ","] := by
  intro rest
  have h : readToken d ',' (' ' :: rest) = some (.symbol ",", ' ' :: rest) := by cases d <;> rfl
  show lex d (',' :: ' ' :: rest) = _
  rw [lex_token (by decide) h, lex_space]
  rfl

/-- a text with a space on each side -/
theorem Lexes.spaced {s : String} {ts : List Token} (h : Lexes d s ts) :
    Opens d (" " ++ s ++ " ") ts := by
  intro rest
  have hsep : Separated (' ' :: rest) := fun c hc => .inl (Option.some.inj hc).symm
  rw [String.toList_append, String.toList_append, List.append_assoc, List.append_assoc]
  show lex d (' ' :: (s.toList ++ ' ' :: rest)) = _
  rw [lex_space, h _ hsep, lex_space]

/-- a token that is read up to any separator -/
theorem lexes_of_readToken {s : String} {c : Char} {cs : List Char} {t : Token}
    (hs : s.toList = c :: cs) (hc : isBlankSpace c = false)
    (h : ∀ rest, Separated rest → readToken d c (cs ++ rest) = some (t, rest)) :
    Lexes d s [t] := by
  intro rest hr
  rw [hs]
  exact lex_token hc (h rest hr)

theorem lexes_string (s : String) : Lexes d (d.quoteString s) [.string s] := by
  refine lexes_of_readToken (String.toList_ofList ..) (by decide) fun rest hr => ?_
  have hq : rest.head? ≠ some '\'' := hr.head_ne (by decide) (by decide) (by decide)
  have hread : readQuoted '\'' (d = .mysql) .plain
      (s.toList.flatMap d.escape ++ '\'' :: rest) = some (s.toList, rest) := by
    rw [readQuoted_flatMap (readQuoted_escape d), readQuoted_close _ hq]
    simp [behind]
  have hne : ('\'' : Char) ≠ d.identifierQuote := by cases d <;> decide
  have hcs : (s.toList.flatMap d.escape).append ['\''] ++ rest =
      s.toList.flatMap d.escape ++ '\'' :: rest := by
    show (s.toList.flatMap d.escape ++ ['\'']) ++ rest = _
    rw [List.append_assoc]
    rfl
  rw [readToken, if_neg hne, if_pos rfl, hcs, hread]
  simp

/-- the segments of a name -/
def segments (name : String) : List String := (parts '.' name.toList).map String.ofList

theorem lexes_name (name : String) : Lexes d (d.quoteIdentifier name) [.name (segments name)] := by
  intro rest hr
  have hq : rest.head? ≠ some d.identifierQuote := by
    cases d <;> exact hr.head_ne (by decide) (by decide) (by decide)
  have hdot : rest.head? ≠ some '.' := hr.head_ne (by decide) (by decide) (by decide)
  obtain ⟨cs, hcs, hread⟩ := readName_quoteSegments d (parts_ne_nil '.' name.toList) hq hdot
  have hblank : isBlankSpace d.identifierQuote = false := by cases d <;> decide
  rw [Dialect.quoteIdentifier, String.toList_ofList, hcs]
  have htoken : readToken d d.identifierQuote (cs ++ rest) = some (.name (segments name), rest) := by
    rw [readToken, if_pos rfl, hread]
    rfl
  exact lex_token hblank htoken

theorem lexes_numeral {cs : List Char} (h : IsNumeral cs) :
    Lexes d (String.ofList cs) [.number (String.ofList cs)] := by
  have hread (rest : List Char) (hr : Separated rest) := readNumeral_append h hr.endsNumeral
  obtain ⟨c, ds, rfl, hc⟩ := h.exists_cons
  have hne (e : Char) (he : e.isDigit = false) : c ≠ e := by
    rintro rfl
    rw [he] at hc
    exact nomatch hc
  have hblank : isBlankSpace c = false := by
    simp [isBlankSpace, hne ' ' rfl, hne '\t' rfl, hne '\n' rfl, hne '\r' rfl]
  refine lexes_of_readToken String.toList_ofList hblank fun rest hr => ?_
  rw [readToken, if_neg (hne _ (by cases d <;> rfl)), if_neg (hne _ rfl), if_pos hc,
    ← List.cons_append, hread rest hr]
  rfl

/-- whether a text is a word -/
def isWord (s : String) : Bool :=
  match s.toList with
  | [] => false
  | c :: cs => !c.isDigit && (c :: cs).all isWordChar

theorem lexes_word {s : String} (h : isWord s = true) : Lexes d s [.word s] := by
  unfold isWord at h
  split at h
  · exact nomatch h
  · next c cs hs =>
    obtain ⟨hc, hcs⟩ := Bool.and_eq_true_iff.mp h
    rw [List.all_cons] at hcs
    obtain ⟨hw, hcs⟩ := Bool.and_eq_true_iff.mp hcs
    have hne (e : Char) (he : isWordChar e = false) : c ≠ e := by
      rintro rfl
      rw [he] at hw
      exact nomatch hw
    have hblank : isBlankSpace c = false := by
      simp [isBlankSpace, hne ' ' rfl, hne '\t' rfl, hne '\n' rfl, hne '\r' rfl]
    have hdigit : ¬ c.isDigit = true := by simpa using hc
    refine lexes_of_readToken hs hblank fun rest hr => ?_
    have hall : ∀ e ∈ cs, isWordChar e = true := List.all_eq_true.mp hcs
    have htake : (cs ++ rest).takeWhile isWordChar = cs := by
      rw [List.takeWhile_append_of_pos hall]
      have hnil : rest.takeWhile isWordChar = [] :=
        hr.elim rfl (fun _ => rfl) (fun _ => rfl) fun _ => rfl
      rw [hnil, List.append_nil]
    have hdrop : (cs ++ rest).dropWhile isWordChar = rest := by
      rw [List.dropWhile_append_of_pos hall]
      exact hr.elim rfl (fun _ => rfl) (fun _ => rfl) fun _ => rfl
    rw [readToken, if_neg (hne _ (by cases d <;> rfl)), if_neg (hne _ rfl), if_neg hdigit,
      if_pos hw, htake, hdrop, ← hs, String.ofList_toList]

/-- a symbol of one or two characters -/
theorem lexes_symbol {s : String} {c : Char} {cs : List Char} (hs : s.toList = c :: cs)
    (hc : c ∈ ['=', '!', '<', '>'])
    (h : ∀ rest, Separated rest → readSymbol (c :: cs ++ rest) = some (.symbol s, rest)) :
    Lexes d s [.symbol s] := by
  have hcase : c ≠ d.identifierQuote ∧ c ≠ '\'' ∧ c.isDigit = false ∧ isWordChar c = false ∧
      isBlankSpace c = false := by
    simp only [List.mem_cons, List.not_mem_nil, or_false] at hc
    obtain rfl | rfl | rfl | rfl := hc <;> cases d <;> decide
  obtain ⟨hq, hs', hd, hw, hb⟩ := hcase
  refine lexes_of_readToken hs hb fun rest hr => ?_
  rw [readToken, if_neg hq, if_neg hs', hd, hw]
  exact h rest hr

theorem opens_and : Opens d " AND " [.word "AND"] := (lexes_word (s := "AND") (by decide)).spaced

theorem opens_or : Opens d " OR " [.word "OR"] := (lexes_word (s := "OR") (by decide)).spaced

/-! ## several texts -/

/-- texts with their tokens, one by one -/
inductive LexesAll (d : Dialect) : List String → List (List Token) → Prop where
  | nil : LexesAll d [] []
  | cons {s : String} {ss : List String} {ts : List Token} {us : List (List Token)}
      (h : Lexes d s ts) (h' : LexesAll d ss us) : LexesAll d (s :: ss) (ts :: us)

theorem LexesAll.intercalate {j : String} {js : List Token} (hj : Opens d j js)
    (hsep : ∀ cs, Separated (j.toList ++ cs)) {ss : List String} {tss : List (List Token)}
    (h : LexesAll d ss tss) : Lexes d (j.intercalate ss) (js.intercalate tss) := by
  induction h with
  | nil =>
    rw [String.intercalate_nil]
    exact .nil
  | @cons s ss ts us hs h ih =>
    cases h with
    | nil =>
      rw [String.intercalate_singleton]
      simpa [List.intercalate] using hs
    | cons hr h =>
      rw [String.intercalate_cons_cons, List.intercalate_cons_cons, String.append_assoc,
        List.append_assoc]
      refine hs.append (.after hj ih) ?_
      rw [String.toList_append]
      exact hsep _

theorem LexesAll.commas {ss : List String} {tss : List (List Token)} (h : LexesAll d ss tss) :
    Lexes d (String.intercalate ", " ss) ([Token.symbol ","].intercalate tss) :=
  h.intercalate opens_comma fun _ _ hc => .inr (.inl (Option.some.inj hc).symm)

theorem LexesAll.conjunction {ss : List String} {tss : List (List Token)} (h : LexesAll d ss tss) :
    Lexes d (" AND ".intercalate ss) ([Token.word "AND"].intercalate tss) :=
  h.intercalate opens_and fun _ _ hc => .inl (Option.some.inj hc).symm

end WhereClause.Sql
