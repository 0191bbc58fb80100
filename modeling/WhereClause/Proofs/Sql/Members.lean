import Mathlib.Data.List.Chain
import WhereClause.Proofs.Intercalate
import WhereClause.Proofs.Sql.Literal

/-!
# Members among tokens

What may stand in the parentheses of a membership test, said of the tokens alone: members with commas
between them, of which each is a literal or a group of members in parentheses.

* `IsMembers`              the members as a grammar;
* `IsMembers.intercalate`  members of their own, with commas between them;
* `IsMembers.filled`       among members no parenthesis is closed right where it is opened.
-/

set_option autoImplicit false

namespace WhereClause.Sql

/-! ## members -/

/-- one member or more, with commas between them; no group is empty -/
inductive IsMembers : List Token → Prop where
  | literal {ts : List Token} (h : IsLiteral ts) : IsMembers ts
  | group {ts : List Token} (h : IsMembers ts) : IsMembers (.symbol "(" :: ts ++ [.symbol ")"])
  | append {ts us : List Token} (h : IsMembers ts) (h' : IsMembers us) :
      IsMembers (ts ++ .symbol "," :: us)

theorem IsMembers.intercalate {ms : List (List Token)} (hne : ms ≠ [])
    (h : ∀ m ∈ ms, IsMembers m) : IsMembers ([Token.symbol ","].intercalate ms) := by
  induction ms with
  | nil => exact absurd rfl hne
  | cons m ms ih =>
    obtain ⟨hm, hms⟩ := List.forall_mem_cons.mp h
    cases ms with
    | nil =>
      rw [List.intercalate_singleton]
      exact hm
    | cons n ns =>
      have hrest := ih (List.cons_ne_nil n ns) hms
      rw [List.intercalate_cons_cons, List.append_assoc]
      exact .append hm hrest

/-! ## parentheses -/

/-- not a parenthesis that is closed right where it is opened -/
def Apart (t u : Token) : Prop := ¬ (t = .symbol "(" ∧ u = .symbol ")")

/-- tokens that can stand in parentheses, and have no empty ones in them -/
structure Filled (ts : List Token) : Prop where
  ne_nil : ts ≠ []
  isChain : ts.IsChain Apart
  first : ts.head? ≠ some (.symbol ")")
  last : ts.getLast? ≠ some (.symbol "(")

namespace Filled

theorem singleton {t : Token} (ho : t ≠ .symbol "(") (hc : t ≠ .symbol ")") : Filled [t] :=
  ⟨List.cons_ne_nil _ _, List.isChain_singleton t, fun h => hc (Option.some.inj h),
    fun h => ho (Option.some.inj h)⟩

theorem append {ts us : List Token} (h : Filled ts) (h' : Filled us) : Filled (ts ++ us) := by
  refine ⟨?_, ?_, ?_, ?_⟩
  · exact List.append_ne_nil_of_left_ne_nil h.ne_nil us
  · refine List.isChain_append.mpr ⟨h.isChain, h'.isChain, ?_⟩
    rintro t ht u hu ⟨rfl, rfl⟩
    exact h.last ht
  · rw [List.head?_append_of_ne_nil ts h.ne_nil]
    exact h.first
  · rw [List.getLast?_append_of_ne_nil ts h'.ne_nil]
    exact h'.last

theorem group {ts : List Token} (h : Filled ts) : Filled (.symbol "(" :: ts ++ [.symbol ")"]) := by
  have hclosed : (ts ++ [Token.symbol ")"]).IsChain Apart := by
    refine List.isChain_append.mpr ⟨h.isChain, List.isChain_singleton _, ?_⟩
    rintro t ht u hu ⟨rfl, rfl⟩
    exact h.last ht
  refine ⟨List.cons_ne_nil _ _, ?_, ?_, ?_⟩
  · rw [List.cons_append]
    refine List.isChain_cons.mpr ⟨?_, hclosed⟩
    rintro u hu ⟨_, rfl⟩
    rw [List.head?_append_of_ne_nil ts h.ne_nil] at hu
    exact h.first hu
  · rw [List.cons_append, List.head?_cons]
    decide
  · rw [List.getLast?_concat]
    decide

end Filled

theorem IsLiteral.filled {ts : List Token} (h : IsLiteral ts) : Filled ts := by
  have single {t : Token} (ht : ∀ s, t = .symbol s → s ≠ "(" ∧ s ≠ ")") : Filled [t] :=
    .singleton (fun he => (ht _ he).1 rfl) fun he => (ht _ he).2 rfl
  cases h with
  | word h => exact single fun _ he => nomatch he
  | string s => exact single fun _ he => nomatch he
  | number s => exact single fun _ he => nomatch he
  | negative s =>
    have hyphen : Filled [.symbol "-"] := .singleton (by decide) (by decide)
    exact hyphen.append (single fun _ he => nomatch he)

/-- **Among members no parenthesis is closed right where it is opened.** -/
theorem IsMembers.filled {ts : List Token} (h : IsMembers ts) : Filled ts := by
  induction h with
  | literal h => exact h.filled
  | group _ ih => exact ih.group
  | append _ _ ih ih' =>
    have comma : Filled [.symbol ","] := .singleton (by decide) (by decide)
    exact ih.append (comma.append ih')

/-- what holds of tokens side by side holds in each of the lists with commas between them -/
theorem isChain_of_mem_intercalate {ms : List (List Token)}
    (h : ([Token.symbol ","].intercalate ms).IsChain Apart) : ∀ m ∈ ms, m.IsChain Apart := by
  induction ms with
  | nil => exact fun m hm => absurd hm List.not_mem_nil
  | cons m ms ih =>
    cases ms with
    | nil =>
      rw [List.intercalate_singleton] at h
      exact List.forall_mem_singleton.mpr h
    | cons n ns =>
      rw [List.intercalate_cons_cons] at h
      exact List.forall_mem_cons.mpr
        ⟨h.left_of_append.left_of_append, ih h.right_of_append⟩

end WhereClause.Sql
