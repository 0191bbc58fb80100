import WhereClause.Proofs.Filter.Atoms
import WhereClause.Proofs.Sql.Literal

/-!
# The tokens of a condition

The tokens that a database reads from the text of a condition, given by the tree of the query alone.

* `Atom.tokens`          the tokens of a comparison: its field is one name, its strings are strings;
* `conjunctionTokens`    the tokens of a tree;
* `lexes_conjunction`    the text of a tree is read as the tokens of the tree;
* `names_of_build`, `strings_of_build`  the names and the strings among the tokens of a condition are
                         those of the leaves of the query, each once and in their order.
-/

set_option autoImplicit false

namespace WhereClause.Filter

open WhereClause.Sql

/-! ## comparisons -/

def Comparison.tokens : Comparison → List Token
  | equal => [.symbol "="]
  | notEqual => [.symbol "!="]
  | greater => [.symbol ">"]
  | greaterOrEqual => [.symbol ">="]
  | less => [.symbol "<"]
  | lessOrEqual => [.symbol "<="]
  | like => [.word "LIKE"]
  | notLike => [.word "NOT", .word "LIKE"]
  | isIn => [.word "IN"]
  | notIn => [.word "NOT", .word "IN"]

def Atom.tokens (o : Options) : Atom → List Token
  | .compare k field v =>
    .name (segments field) :: (k.tokens ++
      if k.isMembership then .symbol "(" :: v.tokens o ++ [.symbol ")"] else v.tokens o)
  | .constant b => [.number "1", .symbol "=", .number (if b then "1" else "0")]

variable {d : Dialect}

theorem lexes_words (k : Comparison) : Lexes d k.words k.tokens := by
  have negated (s : String) (h : isWord s = true) :
      Lexes d ("NOT" ++ (" " ++ s)) [.word "NOT", .word s] := by
    have hs : Lexes d (" " ++ s) [.word s] := by
      intro rest hr
      rw [String.toList_append, List.append_assoc]
      show lex d (' ' :: (s.toList ++ rest)) = _
      rw [lex_space]
      exact lexes_word h rest hr
    have hsep : Separated (" " ++ s).toList := by
      intro c hc
      rw [String.toList_append] at hc
      exact .inl (Option.some.inj hc).symm
    exact (lexes_word (s := "NOT") (by decide)).append hs hsep
  cases k with
  | equal =>
    exact lexes_symbol (rfl : "=".toList = ['=']) (by decide) fun _ hr =>
      hr.elim rfl (fun _ => rfl) (fun _ => rfl) fun _ => rfl
  | notEqual =>
    exact lexes_symbol (rfl : "!=".toList = ['!', '=']) (by decide) fun _ hr =>
      hr.elim rfl (fun _ => rfl) (fun _ => rfl) fun _ => rfl
  | greater =>
    exact lexes_symbol (rfl : ">".toList = ['>']) (by decide) fun _ hr =>
      hr.elim rfl (fun _ => rfl) (fun _ => rfl) fun _ => rfl
  | greaterOrEqual =>
    exact lexes_symbol (rfl : ">=".toList = ['>', '=']) (by decide) fun _ hr =>
      hr.elim rfl (fun _ => rfl) (fun _ => rfl) fun _ => rfl
  | less =>
    exact lexes_symbol (rfl : "<".toList = ['<']) (by decide) fun _ hr =>
      hr.elim rfl (fun _ => rfl) (fun _ => rfl) fun _ => rfl
  | lessOrEqual =>
    exact lexes_symbol (rfl : "<=".toList = ['<', '=']) (by decide) fun _ hr =>
      hr.elim rfl (fun _ => rfl) (fun _ => rfl) fun _ => rfl
  | like => exact lexes_word (s := "LIKE") (by decide)
  | notLike => exact negated "LIKE" (by decide)
  | isIn => exact lexes_word (s := "IN") (by decide)
  | notIn => exact negated "IN" (by decide)

theorem Atom.lexes (o : Options) (a : Atom) : Lexes o.dialect (a.text o) (a.tokens o) := by
  cases a with
  | compare k field v =>
    have hsep (s : String) : Separated (" " ++ k.words ++ " " ++ s).toList := by
      intro c hc
      rw [String.toList_append, String.toList_append, String.toList_append] at hc
      exact .inl (Option.some.inj hc).symm
    have hlist : Lexes o.dialect
        (if k.isMembership then "(" ++ v.literal o ++ ")" else v.literal o)
        (if k.isMembership then .symbol "(" :: v.tokens o ++ [.symbol ")"] else v.tokens o) := by
      split
      · exact (lexes_literal o v).parenthesised
      · exact lexes_literal o v
    have htext : (Atom.compare k field v).text o = o.dialect.quoteIdentifier field ++
        (" " ++ k.words ++ " " ++
          (if k.isMembership then "(" ++ v.literal o ++ ")" else v.literal o)) := by
      show k.text o field v = _
      rw [Comparison.text, Comparison.around]
      have hopen : " (" = " " ++ "(" := rfl
      split
      · rw [hopen]
        simp only [String.append_assoc]
      · simp only [String.append_assoc]
    rw [htext]
    exact (lexes_name field).append (.after (lexes_words k).spaced hlist) (hsep _)
  | constant b =>
    have hone : Lexes o.dialect "1" [.number "1"] := lexes_numeral (isNumeral_decimal 1)
    have hzero : Lexes o.dialect "0" [.number "0"] := lexes_numeral (isNumeral_decimal 0)
    have hsep (s : String) : Separated (" " ++ "=" ++ " " ++ s).toList := by
      intro c hc
      rw [String.toList_append, String.toList_append, String.toList_append] at hc
      exact .inl (Option.some.inj hc).symm
    have hequal : Opens o.dialect (" " ++ "=" ++ " ") [.symbol "="] := (lexes_words .equal).spaced
    cases b with
    | true => exact hone.append (.after hequal hone) (hsep _)
    | false => exact hone.append (.after hequal hzero) (hsep _)

/-! ## trees -/

def Item.tokens {α : Type} (f : α → List Token) : Item α → List Token
  | .atom a => f a
  | .opening => [.symbol "("]
  | .closing => [.symbol ")"]
  | .and => [.word "AND"]
  | .or => [.word "OR"]

def itemTokens {α : Type} (f : α → List Token) (is : List (Item α)) : List Token :=
  is.flatMap (Item.tokens f)

theorem itemTokens_append {α : Type} (f : α → List Token) (is js : List (Item α)) :
    itemTokens f (is ++ js) = itemTokens f is ++ itemTokens f js := List.flatMap_append

theorem itemTokens_intercalate {α : Type} (f : α → List Token) (j : List (Item α))
    (xs : List (List (Item α))) :
    itemTokens f (j.intercalate xs) = (itemTokens f j).intercalate (xs.map (itemTokens f)) :=
  flatMap_intercalate (Item.tokens f) j xs

/-- the tokens of conditions that all have to hold -/
def conjunctionTokens (o : Options) (ts : List (Condition Atom)) : List Token :=
  itemTokens (Atom.tokens o) (conjunctionItems ts)

/-- what a connective writes before, between and behind its parts -/
theorem Connective.opens {α : Type} (f : α → List Token) (k : Connective) :
    Opens d k.wrapping.1 (itemTokens f k.opening) ∧ Opens d k.joiner (itemTokens f k.joint) ∧
      Opens d k.wrapping.2 (itemTokens f k.closing) := by
  have two : Opens d "((" [.symbol "(", .symbol "("] := opens_open.append opens_open
  have end2 : Opens d "))" [.symbol ")", .symbol ")"] := opens_close.append opens_close
  have and : Opens d ") AND (" [.symbol ")", .word "AND", .symbol "("] :=
    (opens_close.append opens_and).append opens_open
  have or : Opens d ") OR (" [.symbol ")", .word "OR", .symbol "("] :=
    (opens_close.append opens_or).append opens_open
  cases k with
  | and => exact ⟨opens_open, and, opens_close⟩
  | or => exact ⟨two, or, end2⟩
  | nor => exact ⟨opens_open, or, opens_close⟩
  | nand => exact ⟨opens_open, and, opens_close⟩

theorem Connective.separated (k : Connective) (cs : List Char) :
    Separated (k.joiner.toList ++ cs) ∧ Separated (k.wrapping.2.toList ++ cs) := by
  cases k <;> exact ⟨fun _ hc => .inr (.inr (Option.some.inj hc).symm),
    fun _ hc => .inr (.inr (Option.some.inj hc).symm)⟩

variable (o : Options)

mutual

theorem Condition.lexes : ∀ t : Condition Atom,
    Lexes o.dialect (t.text o) (itemTokens (Atom.tokens o) t.items)
  | .atom a => by
    have h := a.lexes o
    rw [Condition.items, itemTokens, List.flatMap_singleton]
    exact h
  | .group k parts => by
    obtain ⟨ho, hj, hc⟩ := k.opens (d := o.dialect) (Atom.tokens o)
    have hparts := (lexesAll_parts parts).intercalate hj fun cs => (k.separated cs).1
    have hsep := (k.separated []).2
    rw [List.append_nil] at hsep
    rw [Condition.text, Connective.render, Condition.items, itemTokens_append, itemTokens_append,
      itemTokens_intercalate]
    exact (Lexes.after ho hparts).append hc.lexes hsep

theorem lexesAll_conditions : ∀ ts : List (Condition Atom),
    LexesAll o.dialect (conditionTexts o ts)
      ((conditionItems ts).map (itemTokens (Atom.tokens o)))
  | [] => .nil
  | t :: ts => .cons t.lexes (lexesAll_conditions ts)

theorem lexesAll_parts : ∀ ps : List (List (Condition Atom)),
    LexesAll o.dialect (partTexts o ps) ((partItems ps).map (itemTokens (Atom.tokens o)))
  | [] => .nil
  | p :: ps => by
    have hp := (lexesAll_conditions p).conjunction
    rw [partItems, List.map_cons, itemTokens_intercalate]
    exact .cons hp (lexesAll_parts ps)

end

/-- **The text of a tree is read as the tokens of the tree.** -/
theorem lexes_conjunction (ts : List (Condition Atom)) :
    Lexes o.dialect (conjunctionText o ts) (conjunctionTokens o ts) := by
  have h := (lexesAll_conditions o ts).conjunction
  rw [conjunctionTokens, conjunctionItems, itemTokens_intercalate]
  exact h

/-! ## names and strings -/

/-- nothing is left of the tokens between comparisons -/
theorem filterMap_itemTokens {α β : Type} {f : α → List Token} {g : Token → Option β}
    (hs : ∀ s, g (.symbol s) = none) (hw : ∀ s, g (.word s) = none) (is : List (Item α)) :
    (itemTokens f is).filterMap g = (itemAtoms is).flatMap fun a => (f a).filterMap g := by
  have glue (t : Token) (ht : g t = none) (us : List β) : [t].filterMap g ++ us = us := by
    rw [List.filterMap_cons, ht]
    rfl
  induction is with
  | nil => rfl
  | cons i is ih =>
    have htokens : itemTokens f (i :: is) = i.tokens f ++ itemTokens f is := List.flatMap_cons
    rw [htokens, List.filterMap_append, ih]
    cases i with
    | atom a => rfl
    | opening => exact glue _ (hs _) _
    | closing => exact glue _ (hs _) _
    | and => exact glue _ (hw _) _
    | or => exact glue _ (hw _) _

/-- a field has one name, and a test against no values has none -/
def Leaf.names (l : Leaf) : List (List String) :=
  match l.operand with
  | .array [] => if l.key = "$in" ∨ l.key = "$nin" then [] else [segments l.field]
  | _ => [segments l.field]

mutual

/-- the strings in an operand, an instant as the clocks of the zone show it -/
def Operand.strings (z : Calendar.Zone) : Operand → List String
  | .string s => [s]
  | .timestamp t => [t.shownText z]
  | .array xs => elementStrings z xs
  | _ => []

def elementStrings (z : Calendar.Zone) : List Operand → List String
  | [] => []
  | x :: xs => x.strings z ++ elementStrings z xs

end

/-- the strings of a leaf; a pattern is looked for anywhere in the field -/
def Leaf.strings (z : Calendar.Zone) (l : Leaf) : List String :=
  if l.key = "$like" then (l.operand.pattern?.map fun s => "%" ++ s ++ "%").toList
  else l.operand.strings z

theorem filterMap_numberTokens {β : Type} {g : Token → Option β} (hs : ∀ s, g (.symbol s) = none)
    (hn : ∀ s, g (.number s) = none) (n : Number) : (numberTokens n).filterMap g = [] := by
  unfold numberTokens
  split
  · rw [List.filterMap_cons, hs, List.filterMap_cons, hn]
    rfl
  · rw [List.filterMap_cons, hn]
    rfl

theorem filterMap_elementTokens {β : Type} {g : Token → Option β}
    (hs : ∀ s, g (.symbol s) = none) (v : Value) (vs : List Value) :
    (elementTokens o (v :: vs)).flatMap (fun ts => ts.filterMap g) =
      (v.tokens o).filterMap g ++ (elementTokens o vs).flatMap fun ts => ts.filterMap g := by
  cases v with
  | list ws =>
    rw [elementTokens, List.flatMap_cons, List.cons_append, List.filterMap_cons, hs]
    show (List.filterMap g (_ ++ _)) ++ _ = _
    rw [List.filterMap_append, List.filterMap_cons, hs]
    simp [Value.tokens]
  | _ => rfl

mutual

/-- no literal has a name in it -/
theorem names_valueTokens : ∀ v : Value, (v.tokens o).filterMap Token.name? = []
  | .null => rfl
  | .boolean true => rfl
  | .boolean false => rfl
  | .number n => filterMap_numberTokens (fun _ => rfl) (fun _ => rfl) n
  | .string s => rfl
  | .timestamp t => rfl
  | .list vs => by
    rw [Value.tokens, filterMap_intercalate Token.name? (by rfl)]
    exact names_elementTokens vs

theorem names_elementTokens : ∀ vs : List Value,
    (elementTokens o vs).flatMap (fun ts => ts.filterMap Token.name?) = []
  | [] => rfl
  | v :: vs => by
    rw [filterMap_elementTokens o (fun _ => rfl), names_valueTokens v, names_elementTokens vs]
    rfl

end

mutual

/-- the strings of a literal are those of the operand -/
theorem strings_valueTokens : ∀ (x : Operand) {v : Value}, x.value? = some v →
    (v.tokens o).filterMap Token.string? = x.strings o.zone
  | .null, _, rfl => rfl
  | .boolean true, _, rfl => rfl
  | .boolean false, _, rfl => rfl
  | .number n, _, rfl => filterMap_numberTokens (fun _ => rfl) (fun _ => rfl) n
  | .string s, _, rfl => rfl
  | .timestamp t, _, rfl => rfl
  | .object es, _, h => nomatch h
  | .array xs, v, h => by
    obtain ⟨vs, hvs, rfl⟩ := Option.map_eq_some_iff.mp h
    rw [Value.tokens, filterMap_intercalate Token.string? (by rfl)]
    exact strings_elementTokens xs hvs

theorem strings_elementTokens : ∀ (xs : List Operand) {vs : List Value},
    Operand.values? xs = some vs →
      (elementTokens o vs).flatMap (fun ts => ts.filterMap Token.string?) =
        elementStrings o.zone xs
  | [], _, rfl => rfl
  | x :: xs, us, h => by
    obtain ⟨v, vs, hv, hvs, rfl⟩ := Operand.values?_cons h
    rw [filterMap_elementTokens o (fun _ => rfl), strings_valueTokens x hv,
      strings_elementTokens xs hvs]
    rfl

end

/-- a single value in the place of a list has the same tokens -/
theorem tokens_members (v : Value) : (Value.list v.members).tokens o = v.tokens o := by
  cases v with
  | list vs => rfl
  | _ => exact List.intercalate_singleton

/-- the tokens of a comparison have the name of its field and the strings of its literal -/
theorem filterMap_compare {β : Type} {g : Token → Option β} (hs : ∀ s, g (.symbol s) = none)
    (hw : ∀ s, g (.word s) = none) (k : Comparison) (field : String) (v : Value) :
    ((Atom.compare k field v).tokens o).filterMap g =
      (g (.name (segments field))).toList ++ (v.tokens o).filterMap g := by
  have hk : k.tokens.filterMap g = [] := by
    cases k <;> simp [Comparison.tokens, hs, hw]
  have hlist : List.filterMap g
      (if k.isMembership then .symbol "(" :: v.tokens o ++ [.symbol ")"] else v.tokens o) =
        (v.tokens o).filterMap g := by
    split
    · rw [List.cons_append, List.filterMap_cons, hs]
      show List.filterMap g (_ ++ _) = _
      rw [List.filterMap_append, List.filterMap_cons, hs]
      exact List.append_nil _
    · rfl
  rw [Atom.tokens, List.filterMap_cons, List.filterMap_append, hk, hlist]
  cases g (.name (segments field)) <;> rfl

theorem Leaf.names_atom {l : Leaf} {a : Atom} (h : l.atom? = some a) :
    (a.tokens o).filterMap Token.name? = l.names := by
  obtain ⟨k, hk, _, hin⟩ := Leaf.atom?_cases h
  have named (v : Value) (hv : l.operand.value? ≠ some (.list []) ∨ k.isMembership = false) :
      ((Atom.compare k l.field v).tokens o).filterMap Token.name? = l.names := by
    rw [filterMap_compare o (fun _ => rfl) (fun _ => rfl), names_valueTokens]
    unfold Leaf.names
    split
    · next hx =>
      have hkey : ¬ (l.key = "$in" ∨ l.key = "$nin") := by
        rcases hv with hv | hv
        · rw [hx] at hv
          exact absurd rfl hv
        · rw [← hin, hv]
          exact Bool.false_ne_true
      rw [if_neg hkey]
      rfl
    · rfl
  rcases Comparison.atom?_cases hk with ⟨hl, s, _, rfl⟩ | ⟨hm, hv⟩ | ⟨hp, v, _, rfl⟩
  · refine named _ (.inr ?_)
    rcases hl with rfl | rfl <;> rfl
  · rcases hv with ⟨hv, rfl⟩ | ⟨v, hv, hne, rfl⟩
    · have hkey : l.key = "$in" ∨ l.key = "$nin" := by
        rw [← hin]
        rcases hm with rfl | rfl <;> rfl
      have hx : l.operand = .array [] := Operand.eq_of_value?_nil hv
      unfold Leaf.names
      rw [hx]
      exact (if_pos hkey).symm
    · refine named _ (.inl ?_)
      rw [hv]
      intro he
      cases he
      exact hne rfl
  · exact named _ (.inr hp.1)

theorem Leaf.strings_atom {l : Leaf} {a : Atom} (h : l.atom? = some a) :
    (a.tokens o).filterMap Token.string? = l.strings o.zone := by
  obtain ⟨k, hk, hlike, _⟩ := Leaf.atom?_cases h
  have value (hne : ¬ (k = .like ∨ k = .notLike)) {v : Value} (hv : l.operand.value? = some v) :
      (v.tokens o).filterMap Token.string? = l.strings o.zone := by
    rw [strings_valueTokens o l.operand hv, Leaf.strings, if_neg (mt hlike.mpr hne)]
  rcases Comparison.atom?_cases hk with ⟨hl, s, hs, rfl⟩ | ⟨hm, hv⟩ | ⟨hp, v, hv, rfl⟩
  · rw [filterMap_compare o (fun _ => rfl) (fun _ => rfl), Leaf.strings, if_pos (hlike.mp hl), hs]
    rfl
  · have hne : ¬ (k = .like ∨ k = .notLike) := by
      rcases hm with rfl | rfl <;> decide
    rcases hv with ⟨hv, rfl⟩ | ⟨v, hv, _, rfl⟩
    · exact value hne hv
    · rw [filterMap_compare o (fun _ => rfl) (fun _ => rfl), tokens_members]
      exact value hne hv
  · rw [filterMap_compare o (fun _ => rfl) (fun _ => rfl)]
    exact value (fun h => h.elim hp.2.1 hp.2.2) hv

theorem flatMap_atoms {β : Type} {f : Atom → List β} {g : Leaf → List β}
    (hfg : ∀ l a, Leaf.atom? l = some a → f a = g l) {ls : List Leaf}
    (hs : ∀ l ∈ ls, ∃ a, l.atom? = some a) :
    (ls.filterMap Leaf.atom?).flatMap f = ls.flatMap g := by
  induction ls with
  | nil => rfl
  | cons l ls ih =>
    obtain ⟨a, ha⟩ := hs l List.mem_cons_self
    rw [List.filterMap_cons, ha, List.flatMap_cons, hfg l a ha, List.flatMap_cons,
      ih fun l hl => hs l (List.mem_cons_of_mem _ hl)]

variable {c : Configuration} {p : Polarity} {q : Query} {sql : String}

theorem names_of_build (h : q.build c p = .ok sql) :
    (conjunctionTokens c.options (q.conditions p)).filterMap Token.name? =
      (q.leaves p.negations).flatMap Leaf.names := by
  rw [conjunctionTokens, filterMap_itemTokens (fun _ => rfl) (fun _ => rfl),
    itemAtoms_conjunctionItems, q.conditionAtoms_conditions p]
  exact flatMap_atoms (fun _ _ ha => Leaf.names_atom c.options ha) (exists_atom_of_build h)

theorem strings_of_build (h : q.build c p = .ok sql) :
    (conjunctionTokens c.options (q.conditions p)).filterMap Token.string? =
      (q.leaves p.negations).flatMap (Leaf.strings c.options.zone) := by
  rw [conjunctionTokens, filterMap_itemTokens (fun _ => rfl) (fun _ => rfl),
    itemAtoms_conjunctionItems, q.conditionAtoms_conditions p]
  exact flatMap_atoms (fun _ _ ha => Leaf.strings_atom c.options ha) (exists_atom_of_build h)

end WhereClause.Filter
