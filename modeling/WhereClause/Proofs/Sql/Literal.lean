import WhereClause.Proofs.Sql.Lexer
import WhereClause.Proofs.Sql.Shown

/-!
# Literals as tokens

The tokens of a value, given by the value alone. A string is one token with the string in it,
whatever characters it has; a negative number is a hyphen and a numeral.

* `Value.tokens`    the tokens of a value;
* `lexes_literal`   the literal of a value is read as its tokens;
* `isLiteral_tokens`  the tokens of a single value are one literal.
-/

set_option autoImplicit false

namespace WhereClause.Sql

variable {d : Dialect}

def numberTokens (n : Number) : List Token :=
  match n.text.toList with
  | '-' :: cs => [.symbol "-", .number (String.ofList cs)]
  | cs => [.number (String.ofList cs)]

mutual

def Value.tokens (o : Options) : Value → List Token
  | .null => [.word "NULL"]
  | .boolean true => [.word "true"]
  | .boolean false => [.word "false"]
  | .number n => numberTokens n
  | .string s => [.string s]
  | .timestamp t => [.string (t.shownText o.zone)]
  | .list vs => [Token.symbol ","].intercalate (elementTokens o vs)

/-- the tokens of each element of a list, the lists among them in parentheses -/
def elementTokens (o : Options) : List Value → List (List Token)
  | [] => []
  | .list vs :: rest =>
    (.symbol "(" :: [Token.symbol ","].intercalate (elementTokens o vs) ++ [.symbol ")"]) ::
      elementTokens o rest
  | v :: rest => v.tokens o :: elementTokens o rest

end

/-- the tokens of a value inside a list -/
def Value.memberTokens (o : Options) : Value → List Token
  | .list vs => .symbol "(" :: (Value.list vs).tokens o ++ [.symbol ")"]
  | v => v.tokens o

theorem elementTokens_cons (o : Options) (v : Value) (vs : List Value) :
    elementTokens o (v :: vs) = v.memberTokens o :: elementTokens o vs := by
  cases v <;> rfl

theorem elementTokens_ne_nil (o : Options) {vs : List Value} (h : vs ≠ []) :
    elementTokens o vs ≠ [] := by
  obtain ⟨v, vs, rfl⟩ := List.exists_cons_of_ne_nil h
  rw [elementTokens_cons]
  exact List.cons_ne_nil _ _

/-! ## numbers -/

theorem opens_hyphen {c : Char} (hc : c ≠ '-') (cs : List Char) :
    lex d ('-' :: c :: cs) = (lex d (c :: cs)).map fun ts => .symbol "-" :: ts := by
  have hs : readSymbol ('-' :: c :: cs) = some (.symbol "-", c :: cs) := by
    unfold readSymbol
    split
    · next h =>
      cases h
      exact absurd rfl hc
    · next h => cases h
    · next h => cases h
    · next h => cases h
    · next h => cases h
    · next h =>
      cases h
      rfl
    · next h => cases h
  refine lex_token (by decide) ?_
  rw [← hs]
  cases d <;> rfl

theorem lexes_number (n : Number) : Lexes d n.text (numberTokens n) := by
  obtain ⟨cs, hcs, ht⟩ := isNumeral_text n
  obtain ⟨c, ds, rfl, hc⟩ := hcs.exists_cons
  have hne : c ≠ '-' := by
    rintro rfl
    exact absurd hc (by decide)
  rcases ht with ht | ht
  · have htokens : numberTokens n = [.number (String.ofList (c :: ds))] := by
      unfold numberTokens
      rw [ht, String.toList_ofList]
      split
      · next h =>
        cases h
        exact absurd rfl hne
      · rfl
    rw [ht, htokens]
    exact lexes_numeral hcs
  · have htokens : numberTokens n = [.symbol "-", .number (String.ofList (c :: ds))] := by
      unfold numberTokens
      rw [ht, String.toList_ofList]
      rfl
    rw [ht, htokens]
    intro rest hr
    have h := lexes_numeral (d := d) hcs rest hr
    rw [String.toList_ofList] at h ⊢
    show lex d ('-' :: c :: (ds ++ rest)) = _
    rw [opens_hyphen hne, ← List.cons_append, h]
    cases lex d rest <;> rfl

/-! ## literals -/

/-- a text in parentheses -/
theorem Lexes.parenthesised {s : String} {ts : List Token} (h : Lexes d s ts) :
    Lexes d ("(" ++ s ++ ")") (.symbol "(" :: ts ++ [.symbol ")"]) := by
  have hclose : Separated ")".toList := fun c hc => .inr (.inr (Option.some.inj hc).symm)
  exact (Lexes.after opens_open h).append opens_close.lexes hclose

variable (o : Options)

mutual

theorem lexes_literal : ∀ v : Value, Lexes o.dialect (v.literal o) (v.tokens o)
  | .null => lexes_word (s := "NULL") (by decide)
  | .boolean true => lexes_word (s := "true") (by decide)
  | .boolean false => lexes_word (s := "false") (by decide)
  | .number n => lexes_number n
  | .string s => lexes_string s
  | .timestamp t => lexes_string (t.shownText o.zone)
  | .list vs => (lexesAll_elements vs).commas

theorem lexesAll_elements : ∀ vs : List Value,
    LexesAll o.dialect (Value.elementLiterals o vs) (elementTokens o vs)
  | [] => .nil
  | .list vs :: rest => .cons (lexesAll_elements vs).commas.parenthesised (lexesAll_elements rest)
  | .null :: rest => .cons (lexes_literal .null) (lexesAll_elements rest)
  | .boolean b :: rest => .cons (lexes_literal (.boolean b)) (lexesAll_elements rest)
  | .number n :: rest => .cons (lexes_literal (.number n)) (lexesAll_elements rest)
  | .string s :: rest => .cons (lexes_literal (.string s)) (lexesAll_elements rest)
  | .timestamp t :: rest => .cons (lexes_literal (.timestamp t)) (lexesAll_elements rest)

end

/-! ## single values -/

/-- whether a value is not a list -/
def Value.isScalar : Value → Bool
  | .list _ => false
  | _ => true

theorem Value.memberTokens_of_isScalar {v : Value} (h : v.isScalar = true) :
    v.memberTokens o = v.tokens o := by
  cases v with
  | list vs => exact nomatch h
  | _ => rfl

/-- the tokens of one literal; a negative number has two -/
inductive IsLiteral : List Token → Prop where
  | word {w : String} (h : w ∈ ["NULL", "true", "false"]) : IsLiteral [.word w]
  | string (s : String) : IsLiteral [.string s]
  | number (s : String) : IsLiteral [.number s]
  | negative (s : String) : IsLiteral [.symbol "-", .number s]

theorem isLiteral_numberTokens (n : Number) : IsLiteral (numberTokens n) := by
  unfold numberTokens
  split
  · exact .negative _
  · exact .number _

theorem isLiteral_tokens {v : Value} (h : v.isScalar = true) : IsLiteral (v.tokens o) := by
  cases v with
  | null => exact .word (by decide)
  | boolean b => cases b <;> exact .word (by decide)
  | number n => exact isLiteral_numberTokens n
  | string s => exact .string s
  | timestamp t => exact .string (t.shownText o.zone)
  | list vs => exact nomatch h

/-- a literal is something, and has no mark of a list in it -/
theorem IsLiteral.no_list {ts : List Token} (h : IsLiteral ts) :
    ts ≠ [] ∧ ∀ s ∈ [",", "(", ")"], Token.symbol s ∉ ts := by
  cases h with
  | word h => exact ⟨List.cons_ne_nil _ _, by simp⟩
  | string s => exact ⟨List.cons_ne_nil _ _, by simp⟩
  | number s => exact ⟨List.cons_ne_nil _ _, by simp⟩
  | negative s => exact ⟨List.cons_ne_nil _ _, by simp⟩

end WhereClause.Sql
