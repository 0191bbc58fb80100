import WhereClause.Proofs.Sql.Literal

/-!
# Reading comparisons

A comparison is read from the tokens at which it starts: a field or a value, and behind it a sign
with another one, `LIKE` with a pattern, or `IN` with members in parentheses. No parenthesis of a
comparison is one that groups conditions.

* `readComparison`         the tokens of a comparison, and those behind it;
* `append_of_readComparison`  the tokens of a comparison are the first of the tokens;
* `IsOperand.readMembers`  members are read up to the parenthesis behind them.
-/

set_option autoImplicit false

namespace WhereClause.Sql

/-- the tokens that are read, and those behind them -/
abbrev Cut := List Token × List Token

/-- tokens before those that are read -/
def Cut.behind (ts : List Token) (c : Cut) : Cut := (ts ++ c.1, c.2)

/-- a token that is a field or a value of itself -/
def Token.isOperand : Token → Bool
  | .name _ | .string _ | .number _ => true
  | .word w => w ∈ ["NULL", "true", "false"]
  | .symbol _ => false

/-- a field or a value -/
def readOperand : List Token → Option Cut
  | .symbol "-" :: .number s :: ts => some ([.symbol "-", .number s], ts)
  | t :: ts => if t.isOperand then some ([t], ts) else none
  | [] => none

/-- the end of a list, or its other members -/
def readMore (t : Token) (ts : List Token) (more : Option Cut) : Option Cut :=
  match t with
  | .symbol ")" => some ([t], ts)
  | .symbol "," => more.map (Cut.behind [t])
  | _ => none

/-- members with commas between them, and the parenthesis behind the last one -/
def readMembers : List Token → Option Cut
  | .symbol "-" :: .number s :: t :: ts =>
    (readMore t ts (readMembers ts)).map (Cut.behind [.symbol "-", .number s])
  | m :: t :: ts =>
    if m.isOperand then (readMore t ts (readMembers ts)).map (Cut.behind [m]) else none
  | _ => none

/-- a test with a word -/
def readWord : List Token → Option Cut
  | .word "LIKE" :: ts => (readOperand ts).map (Cut.behind [.word "LIKE"])
  | .word "IN" :: .symbol "(" :: ts => (readMembers ts).map (Cut.behind [.word "IN", .symbol "("])
  | _ => none

/-- what stands behind the field or value that is compared -/
def readTest : List Token → Option Cut
  | .word "NOT" :: ts => (readWord ts).map (Cut.behind [.word "NOT"])
  | .symbol s :: ts =>
    if s ∈ ["=", "!=", "<>", "<", "<=", ">", ">="] then
      (readOperand ts).map (Cut.behind [.symbol s])
    else none
  | ts => readWord ts

def readComparison (ts : List Token) : Option Cut :=
  (readOperand ts).bind fun c => (readTest c.2).map (Cut.behind c.1)

/-! ## what is read comes first -/

/-- the tokens that are read and those behind them are all the tokens -/
def Cut.Of (c : Cut) (ts : List Token) : Prop := ts = c.1 ++ c.2

theorem Cut.Of.of_map {r : Option Cut} {ts us : List Token} {c : Cut}
    (h : r.map (Cut.behind ts) = some c) (hr : ∀ c, r = some c → c.Of us) : c.Of (ts ++ us) := by
  obtain ⟨d, hd, rfl⟩ := Option.map_eq_some_iff.mp h
  show ts ++ us = ts ++ d.1 ++ d.2
  rw [hr d hd, List.append_assoc]

theorem append_of_readOperand {ts : List Token} {c : Cut} (h : readOperand ts = some c) :
    c.Of ts ∧ c.1 ≠ [] := by
  unfold readOperand at h
  split at h
  · cases h
    exact ⟨rfl, List.cons_ne_nil _ _⟩
  · split at h
    · cases h
      exact ⟨rfl, List.cons_ne_nil _ _⟩
    · exact nomatch h
  · exact nomatch h

theorem append_of_readMore {t : Token} {ts : List Token} {more : Option Cut} {c : Cut}
    (h : readMore t ts more = some c) (hmore : ∀ c, more = some c → c.Of ts) : c.Of (t :: ts) := by
  unfold readMore at h
  split at h
  · cases h
    rfl
  · exact .of_map h hmore
  · exact nomatch h

theorem append_of_readMembers (ts : List Token) :
    ∀ {c : Cut}, readMembers ts = some c → c.Of ts := by
  fun_induction readMembers ts with
  | case1 s t ts ih =>
    intro c h
    exact .of_map h fun d hd => append_of_readMore hd fun e he => ih he
  | case2 m t ts hm hmem ih =>
    intro c h
    exact .of_map h fun d hd => append_of_readMore hd fun e he => ih he
  | case3 m t ts hm hmem => exact fun h => nomatch h
  | case4 ts h1 h2 => exact fun h => nomatch h

theorem append_of_readWord {ts : List Token} {c : Cut} (h : readWord ts = some c) : c.Of ts := by
  unfold readWord at h
  split at h
  · exact .of_map h fun d hd => (append_of_readOperand hd).1
  · exact .of_map h fun d hd => append_of_readMembers _ hd
  · exact nomatch h

theorem append_of_readTest {ts : List Token} {c : Cut} (h : readTest ts = some c) : c.Of ts := by
  unfold readTest at h
  split at h
  · exact .of_map h fun d hd => append_of_readWord hd
  · split at h
    · exact .of_map h fun d hd => (append_of_readOperand hd).1
    · exact nomatch h
  · exact append_of_readWord h

theorem append_of_readComparison {ts c rest : List Token}
    (h : readComparison ts = some (c, rest)) : ts = c ++ rest ∧ c ≠ [] := by
  obtain ⟨d, hd, he⟩ := Option.bind_eq_some_iff.mp h
  obtain ⟨hts, hne⟩ := append_of_readOperand hd
  obtain ⟨e, htest, heq⟩ := Option.map_eq_some_iff.mp he
  cases heq
  refine ⟨?_, fun hnil => hne (List.append_eq_nil_iff.mp hnil).1⟩
  rw [hts, append_of_readTest htest, List.append_assoc]

/-! ## operands and members -/

/-- the tokens of a field or of a value -/
def IsOperand (c : List Token) : Prop :=
  (∃ t, t.isOperand = true ∧ c = [t]) ∨ ∃ s, c = [.symbol "-", .number s]

namespace IsOperand

theorem single {t : Token} (h : t.isOperand = true) : IsOperand [t] := .inl ⟨t, h, rfl⟩

theorem readOperand {c : List Token} (h : IsOperand c) (rest : List Token) :
    Sql.readOperand (c ++ rest) = some (c, rest) := by
  obtain ⟨t, ht, rfl⟩ | ⟨s, rfl⟩ := h
  · cases t with
    | symbol s => exact nomatch ht
    | word w => exact if_pos ht
    | _ => rfl
  · rfl

theorem readMember {c : List Token} (h : IsOperand c) (t : Token) (rest : List Token) :
    Sql.readMembers (c ++ t :: rest) =
      (readMore t rest (Sql.readMembers rest)).map (Cut.behind c) := by
  obtain ⟨t, ht, rfl⟩ | ⟨s, rfl⟩ := h
  · cases t with
    | symbol s => exact nomatch ht
    | word w => exact if_pos ht
    | _ => rfl
  · rfl

theorem readMembers (rest : List Token) : ∀ ms : List (List Token), ms ≠ [] →
    (∀ m ∈ ms, IsOperand m) →
      Sql.readMembers ([Token.symbol ","].intercalate ms ++ .symbol ")" :: rest) =
        some ([Token.symbol ","].intercalate ms ++ [.symbol ")"], rest)
  | [], hne, _ => absurd rfl hne
  | [m], _, h => by
    rw [List.intercalate_singleton, (h m List.mem_cons_self).readMember]
    rfl
  | m :: n :: ms, _, h => by
    have hm := h m List.mem_cons_self
    have hrest := readMembers rest (n :: ms) (List.cons_ne_nil n ms)
      fun k hk => h k (List.mem_cons_of_mem m hk)
    rw [List.intercalate_cons_cons, List.append_assoc, List.append_assoc, List.singleton_append,
      hm.readMember, hrest]
    simp [readMore, Cut.behind]

end IsOperand

theorem IsLiteral.isOperand {ts : List Token} (h : IsLiteral ts) : IsOperand ts := by
  cases h with
  | word h => exact .single (decide_eq_true h)
  | string s => exact .single rfl
  | number s => exact .single rfl
  | negative s => exact .inr ⟨s, rfl⟩

theorem isOperand_elementTokens (o : Options) {vs : List Value}
    (h : ∀ v ∈ vs, v.isScalar = true) : ∀ m ∈ elementTokens o vs, IsOperand m := by
  induction vs with
  | nil => exact fun m hm => nomatch hm
  | cons v vs ih =>
    obtain ⟨hv, hvs⟩ := List.forall_mem_cons.mp h
    rw [elementTokens_cons, Value.memberTokens_of_isScalar o hv]
    exact List.forall_mem_cons.mpr ⟨(isLiteral_tokens o hv).isOperand, ih hvs⟩

end WhereClause.Sql
