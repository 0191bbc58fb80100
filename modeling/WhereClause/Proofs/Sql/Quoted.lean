import WhereClause.Sql.Dialect

/-!
# Reading quoted text

Strings and names are read as a database reads them, with the quotes and escapes of its dialect, and
what has been quoted reads back as it was.

* `readQuoted`  the text up to the closing quote; a quote that stands twice is part of it;
* `readName`    the segments of a name, each in quotes of its own;
* `readQuoted_escape`, `readQuoted_doubled`  one character, escaped and read again;
* `readName_quoteSegments`  a name, quoted and read again.
-/

set_option autoImplicit false
set_option linter.unusedVariables false

namespace WhereClause.Sql

open WhereClause.Text

/-! ## quotes -/

/-- the characters that a backslash and a character stand for; before the wildcards of a pattern the
backslash stays -/
def unescape (c : Char) : List Char :=
  if c = '0' then ['\x00']
  else if c = 'b' then ['\x08']
  else if c = 't' then ['\t']
  else if c = 'n' then ['\n']
  else if c = 'r' then ['\r']
  else if c = 'Z' then ['\x1a']
  else if c = '%' ∨ c = '_' then ['\\', c]
  else [c]

/-- characters before what has been read -/
def behind (cs : List Char) (r : Option (List Char × List Char)) : Option (List Char × List Char) :=
  r.map fun (ds, rest) => (cs ++ ds, rest)

/-- what the last character inside quotes was -/
inductive Inside where
  | plain
  /-- a quote, which closes the text unless another one follows -/
  | quote
  /-- a backslash that escapes the next character -/
  | backslash

/-- the text up to the closing quote, and what stands behind the quote -/
def readQuoted (quote : Char) (escapes : Bool) :
    Inside → List Char → Option (List Char × List Char)
  | .quote, [] => some ([], [])
  | .plain, [] => none
  | .backslash, [] => none
  | .plain, c :: cs =>
    if c = quote then readQuoted quote escapes .quote cs
    else if escapes = true ∧ c = '\\' then readQuoted quote escapes .backslash cs
    else behind [c] (readQuoted quote escapes .plain cs)
  | .quote, c :: cs =>
    if c = quote then behind [c] (readQuoted quote escapes .plain cs) else some ([], c :: cs)
  | .backslash, c :: cs => behind (unescape c) (readQuoted quote escapes .plain cs)

theorem behind_eq_some {cs v rest : List Char} {r : Option (List Char × List Char)}
    (h : behind cs r = some (v, rest)) : ∃ w, r = some (w, rest) := by
  cases r with
  | none => exact nomatch h
  | some p =>
    cases h
    exact ⟨p.1, rfl⟩

theorem behind_behind (cs ds : List Char) (r : Option (List Char × List Char)) :
    behind cs (behind ds r) = behind (cs ++ ds) r := by
  cases r with
  | none => rfl
  | some p => simp [behind]

theorem length_readQuoted (quote : Char) (escapes : Bool) (i : Inside) (cs : List Char)
    {v rest : List Char} (h : readQuoted quote escapes i cs = some (v, rest)) :
    rest.length ≤ cs.length ∧ (i ≠ .quote → rest.length < cs.length) := by
  induction cs generalizing i v with
  | nil =>
    cases i with
    | quote =>
      cases h
      exact ⟨Nat.le_refl _, fun hi => absurd rfl hi⟩
    | plain => exact nomatch h
    | backslash => exact nomatch h
  | cons c cs ih =>
    have hb {ds : List Char} (h : behind ds (readQuoted quote escapes .plain cs) = some (v, rest)) :
        rest.length < (c :: cs).length := by
      obtain ⟨w, hw⟩ := behind_eq_some h
      have hl := (ih _ hw).1
      rw [List.length_cons]
      omega
    have hle {j : Inside} {w : List Char} (h : readQuoted quote escapes j cs = some (w, rest)) :
        rest.length < (c :: cs).length := by
      have hl := (ih _ h).1
      rw [List.length_cons]
      omega
    have both (h : rest.length < (c :: cs).length) (i : Inside) :
        rest.length ≤ (c :: cs).length ∧ (i ≠ .quote → rest.length < (c :: cs).length) :=
      ⟨Nat.le_of_lt h, fun _ => h⟩
    cases i with
    | plain =>
      rw [readQuoted] at h
      split at h
      · exact both (hle h) _
      · split at h
        · exact both (hle h) _
        · exact both (hb h) _
    | quote =>
      rw [readQuoted] at h
      split at h
      · exact both (hb h) _
      · cases h
        exact ⟨Nat.le_refl _, fun hi => absurd rfl hi⟩
    | backslash => exact both (hb h) _

/-- text that is written character by character reads back -/
theorem readQuoted_flatMap {quote : Char} {escapes : Bool} {w : Char → List Char}
    (hw : ∀ c more, readQuoted quote escapes .plain (w c ++ more) =
      behind [c] (readQuoted quote escapes .plain more)) (cs more : List Char) :
    readQuoted quote escapes .plain (cs.flatMap w ++ more) =
      behind cs (readQuoted quote escapes .plain more) := by
  induction cs with
  | nil =>
    show readQuoted quote escapes .plain more = _
    cases readQuoted quote escapes .plain more <;> rfl
  | cons c cs ih =>
    rw [List.flatMap_cons, List.append_assoc, hw, ih, behind_behind]
    rfl

/-- a quote is the closing one if no other follows -/
theorem readQuoted_close {quote : Char} (escapes : Bool) {rest : List Char}
    (h : rest.head? ≠ some quote) :
    readQuoted quote escapes .plain (quote :: rest) = some ([], rest) := by
  rw [readQuoted, if_pos rfl]
  cases rest with
  | nil => rfl
  | cons c cs =>
    have hc : c ≠ quote := fun hc => h (by rw [hc]; rfl)
    rw [readQuoted, if_neg hc]

theorem readQuoted_doubled (quote c : Char) (more : List Char) :
    readQuoted quote false .plain (Dialect.doubled quote c ++ more) =
      behind [c] (readQuoted quote false .plain more) := by
  unfold Dialect.doubled
  split
  · next h =>
    show readQuoted quote false .plain (c :: c :: more) = _
    rw [readQuoted, if_pos h, readQuoted, if_pos h]
  · next h =>
    show readQuoted quote false .plain (c :: more) = _
    rw [readQuoted, if_neg h, if_neg fun h => nomatch h.1]

/-- a backslash takes the next character with it, or none is needed -/
theorem escape_mysql_cases (c : Char) :
    (∃ e, Dialect.escape .mysql c = ['\\', e] ∧ unescape e = [c]) ∨
      Dialect.escape .mysql c = [c] ∧ c ≠ '\'' ∧ c ≠ '\\' := by
  rw [Dialect.escape]
  by_cases h : c = '\x00'
  · subst h
    exact .inl ⟨'0', by decide⟩
  by_cases h : c = '\x08'
  · subst h
    exact .inl ⟨'b', by decide⟩
  by_cases h : c = '\t'
  · subst h
    exact .inl ⟨'t', by decide⟩
  by_cases h : c = '\n'
  · subst h
    exact .inl ⟨'n', by decide⟩
  by_cases h : c = '\r'
  · subst h
    exact .inl ⟨'r', by decide⟩
  by_cases h : c = '\x1a'
  · subst h
    exact .inl ⟨'Z', by decide⟩
  by_cases h : c = '"' ∨ c = '\'' ∨ c = '\\'
  · obtain rfl | rfl | rfl := h
    · exact .inl ⟨'"', by decide⟩
    · exact .inl ⟨'\'', by decide⟩
    · exact .inl ⟨'\\', by decide⟩
  · refine .inr ⟨?_, fun hc => h (.inr (.inl hc)), fun hc => h (.inr (.inr hc))⟩
    simp only [*, if_false]

theorem readQuoted_escape (d : Dialect) (c : Char) (more : List Char) :
    readQuoted '\'' (d = .mysql) .plain (d.escape c ++ more) =
      behind [c] (readQuoted '\'' (d = .mysql) .plain more) := by
  cases d with
  | postgres => exact readQuoted_doubled '\'' c more
  | mysql =>
    show readQuoted '\'' true .plain _ = behind [c] (readQuoted '\'' true .plain more)
    obtain ⟨e, he, hu⟩ | ⟨he, hq, hb⟩ := escape_mysql_cases c
    · rw [he]
      show readQuoted '\'' true .plain ('\\' :: e :: more) = _
      rw [readQuoted, if_neg (by decide), if_pos ⟨rfl, rfl⟩, readQuoted, hu]
    · rw [he]
      show readQuoted '\'' true .plain (c :: more) = _
      rw [readQuoted, if_neg hq, if_neg fun h => hb h.2]

/-! ## names -/

/-- what stands behind a dot and an opening quote -/
def nextSegment? (quote : Char) : List Char → Option (List Char)
  | '.' :: c :: cs => if c = quote then some cs else none
  | _ => none

theorem length_nextSegment? {quote : Char} {cs more : List Char}
    (h : nextSegment? quote cs = some more) : more.length < cs.length := by
  unfold nextSegment? at h
  split at h
  · next c ds =>
    split at h
    · cases h
      rw [List.length_cons, List.length_cons]
      omega
    · exact nomatch h
  · exact nomatch h

/-- the segments of a name behind its opening quote, and what stands behind the name -/
def readName (quote : Char) (cs : List Char) : Option (List String × List Char) :=
  match h : readQuoted quote false .plain cs with
  | none => none
  | some (s, rest) =>
    match h' : nextSegment? quote rest with
    | none => some ([String.ofList s], rest)
    | some more => (readName quote more).map fun (ss, rest) => (String.ofList s :: ss, rest)
termination_by cs.length
decreasing_by
  have hr := (length_readQuoted _ _ _ _ h).1
  have hm := length_nextSegment? h'
  omega

theorem readName_none {quote : Char} {cs : List Char}
    (h : readQuoted quote false .plain cs = none) : readName quote cs = none := by
  rw [readName]
  split
  · rfl
  · next hs =>
    rw [h] at hs
    exact nomatch hs

theorem readName_last {quote : Char} {cs s rest : List Char}
    (h : readQuoted quote false .plain cs = some (s, rest)) (h' : nextSegment? quote rest = none) :
    readName quote cs = some ([String.ofList s], rest) := by
  rw [readName]
  split
  · next hn =>
    rw [h] at hn
    exact nomatch hn
  · next hs =>
    rw [h] at hs
    cases hs
    split
    · rfl
    · next hm =>
      rw [h'] at hm
      exact nomatch hm

theorem readName_next {quote : Char} {cs s rest more : List Char}
    (h : readQuoted quote false .plain cs = some (s, rest))
    (h' : nextSegment? quote rest = some more) :
    readName quote cs =
      (readName quote more).map fun (ss, rest) => (String.ofList s :: ss, rest) := by
  rw [readName]
  split
  · next hn =>
    rw [h] at hn
    exact nomatch hn
  · next hs =>
    rw [h] at hs
    cases hs
    split
    · next hm =>
      rw [h'] at hm
      exact nomatch hm
    · next hm =>
      rw [h'] at hm
      cases hm
      rfl

theorem length_readName (quote : Char) (cs : List Char) {ss : List String} {rest : List Char}
    (h : readName quote cs = some (ss, rest)) : rest.length < cs.length := by
  induction cs using readName.induct quote generalizing ss with
  | case1 cs hn =>
    rw [readName_none hn] at h
    exact nomatch h
  | case2 cs s r hs hn =>
    rw [readName_last hs hn] at h
    cases h
    exact (length_readQuoted _ _ _ _ hs).2 (fun h => nomatch h)
  | case3 cs s r hs more hm ih =>
    rw [readName_next hs hm] at h
    obtain ⟨⟨us, u⟩, hu, he⟩ := Option.map_eq_some_iff.mp h
    cases he
    have hlast := ih hu
    have hr := (length_readQuoted _ _ _ _ hs).1
    have hl := length_nextSegment? hm
    omega

/-- a name read from its quotes: the segments come back, with the quotes in them single again -/
theorem readName_quoteSegments (d : Dialect) {ps : List (List Char)} (hps : ps ≠ [])
    {rest : List Char} (hq : rest.head? ≠ some d.identifierQuote) (hdot : rest.head? ≠ some '.') :
    ∃ cs, List.intercalate ['.'] (ps.map d.quoteSegment) = d.identifierQuote :: cs ∧
      readName d.identifierQuote (cs ++ rest) = some (ps.map String.ofList, rest) := by
  have hsegment (p more : List Char) (hm : more.head? ≠ some d.identifierQuote) :
      readQuoted d.identifierQuote false .plain
        (p.flatMap (Dialect.doubled d.identifierQuote) ++ d.identifierQuote :: more) =
        some (p, more) := by
    rw [readQuoted_flatMap (readQuoted_doubled d.identifierQuote), readQuoted_close _ hm]
    simp [behind]
  induction ps with
  | nil => exact absurd rfl hps
  | cons p ps ih =>
    cases ps with
    | nil =>
      refine ⟨p.flatMap (Dialect.doubled d.identifierQuote) ++ [d.identifierQuote], by
        simp [List.intercalate, Dialect.quoteSegment], ?_⟩
      have hnone : nextSegment? d.identifierQuote rest = none := by
        unfold nextSegment?
        split
        · exact absurd rfl hdot
        · rfl
      rw [List.append_assoc]
      exact readName_last (hsegment p rest hq) hnone
    | cons p' ps =>
      obtain ⟨cs, hcs, hread⟩ := ih (List.cons_ne_nil p' ps)
      have hne : ('.' : Char) ≠ d.identifierQuote := by cases d <;> decide
      have hnext : nextSegment? d.identifierQuote ('.' :: d.identifierQuote :: (cs ++ rest)) =
          some (cs ++ rest) := if_pos rfl
      refine ⟨p.flatMap (Dialect.doubled d.identifierQuote) ++
        d.identifierQuote :: '.' :: d.identifierQuote :: cs, ?_, ?_⟩
      · rw [List.map_cons, List.map_cons, List.intercalate_cons_cons, ← List.map_cons, hcs]
        simp [Dialect.quoteSegment]
      · have hs := hsegment p ('.' :: d.identifierQuote :: (cs ++ rest))
          (fun h => hne (Option.some.inj h))
        rw [List.append_assoc, List.cons_append, List.cons_append, List.cons_append,
          readName_next hs hnext, hread]
        rfl

end WhereClause.Sql
