import WhereClause.Proofs.Sql.Quoted

/-!
# Quoted texts are read back

A string literal and a name are read in front of any text that could not go on with them: what comes
out is what was quoted, and what is left is the text behind it. So no two texts are quoted alike, and
where a quoted text ends does not depend on what it says.

* `readLiteral`  a string literal, with the escapes of the dialect;
* `readPath`     a name, each of its segments in quotes of its own;
* `readLiteral_quoteString`   a string is read back from its literal;
* `readPath_quoteIdentifier`  the segments of a name are read back from its quotes.
-/

set_option autoImplicit false

namespace WhereClause.Sql

open WhereClause.Text

/-! ## reading back -/

/-- what is written so that it is read back has one end: texts that go on differently differ in what
was written or in what stands behind it -/
theorem unique_of_reads {α : Type} {read : List Char → Option (α × List Char)}
    {view : String → α} {write : String → String} {ends : List Char → Prop}
    (hview : Function.Injective view)
    (h : ∀ s rest, ends rest → read ((write s).toList ++ rest) = some (view s, rest))
    {s s' : String} {rest rest' : List Char} (hr : ends rest) (hr' : ends rest')
    (he : (write s).toList ++ rest = (write s').toList ++ rest') : s = s' ∧ rest = rest' := by
  have hread : some (view s, rest) = some (view s', rest') := by
    rw [← h s rest hr, ← h s' rest' hr', he]
  obtain ⟨hv, hrest⟩ := Prod.mk.inj (Option.some.inj hread)
  exact ⟨hview hv, hrest⟩

/-! ## string literals -/

/-- the character that a backslash and a character stand for -/
def escapedChar (c : Char) : Char :=
  if c = '0' then '\x00'
  else if c = 'b' then '\x08'
  else if c = 't' then '\t'
  else if c = 'n' then '\n'
  else if c = 'r' then '\r'
  else if c = 'Z' then '\x1a'
  else c

/-- the characters of a string up to its closing quote, and what stands behind the quote. A quote that
stands twice is one of the characters, and in MySQL a backslash takes the next character with it. -/
def readBody (d : Dialect) : List Char → Option (List Char × List Char)
  | [] => none
  | [c] => if c = '\'' then some ([], []) else none
  | c :: e :: cs =>
    if c = '\'' then
      if e = '\'' then behind ['\''] (readBody d cs) else some ([], e :: cs)
    else if d = .mysql ∧ c = '\\' then behind [escapedChar e] (readBody d cs)
    else behind [c] (readBody d (e :: cs))

/-- a string literal from its opening quote on, and what stands behind it -/
def readLiteral (d : Dialect) : List Char → Option (String × List Char)
  | [] => none
  | c :: cs =>
    if c = '\'' then (readBody d cs).map fun (s, rest) => (String.ofList s, rest) else none

theorem readBody_close (d : Dialect) {rest : List Char} (h : rest.head? ≠ some '\'') :
    readBody d ('\'' :: rest) = some ([], rest) := by
  cases rest with
  | nil => rfl
  | cons e cs =>
    have he : e ≠ '\'' := fun he => h (by rw [he]; rfl)
    rw [readBody, if_pos rfl, if_neg he]

theorem readBody_doubled (d : Dialect) (cs : List Char) :
    readBody d ('\'' :: '\'' :: cs) = behind ['\''] (readBody d cs) := by
  rw [readBody, if_pos rfl, if_pos rfl]

theorem readBody_backslash (e : Char) (cs : List Char) :
    readBody .mysql ('\\' :: e :: cs) = behind [escapedChar e] (readBody .mysql cs) := by
  rw [readBody, if_neg (by decide), if_pos ⟨rfl, rfl⟩]

theorem readBody_plain {d : Dialect} {c : Char} (hq : c ≠ '\'') (hb : ¬ (d = .mysql ∧ c = '\\'))
    (cs : List Char) : readBody d (c :: cs) = behind [c] (readBody d cs) := by
  cases cs with
  | nil => exact if_neg hq
  | cons e cs => rw [readBody, if_neg hq, if_neg hb]

theorem escapedChar_of_unescape {e c : Char} (h : unescape e = [c]) : escapedChar e = c := by
  grind [unescape, escapedChar]

/-- one character of a string, written and read again -/
theorem readBody_escape (d : Dialect) (c : Char) (more : List Char) :
    readBody d (d.escape c ++ more) = behind [c] (readBody d more) := by
  cases d with
  | mysql =>
    obtain ⟨e, he, hu⟩ | ⟨he, hq, hb⟩ := escape_mysql_cases c
    · rw [he]
      show readBody .mysql ('\\' :: e :: more) = _
      rw [readBody_backslash, escapedChar_of_unescape hu]
    · rw [he]
      exact readBody_plain hq (fun h => hb h.2) more
  | postgres =>
    show readBody .postgres (Dialect.doubled '\'' c ++ more) = _
    unfold Dialect.doubled
    by_cases h : c = '\''
    · rw [if_pos h, h]
      exact readBody_doubled .postgres more
    · rw [if_neg h]
      have hb : ¬ (Dialect.postgres = .mysql ∧ c = '\\') := fun hb => nomatch hb.1
      exact readBody_plain h hb more

theorem readBody_escapes (d : Dialect) (cs more : List Char) :
    readBody d (cs.flatMap d.escape ++ more) = behind cs (readBody d more) := by
  induction cs with
  | nil =>
    show readBody d more = _
    cases readBody d more <;> rfl
  | cons c cs ih =>
    rw [List.flatMap_cons, List.append_assoc, readBody_escape, ih, behind_behind]
    rfl

theorem toList_quoteString_append (d : Dialect) (s : String) (rest : List Char) :
    (d.quoteString s).toList ++ rest = '\'' :: (s.toList.flatMap d.escape ++ '\'' :: rest) := by
  simp [Dialect.quoteString]

theorem readLiteral_of_quoteString (d : Dialect) (s : String) (rest : List Char)
    (h : rest.head? ≠ some '\'') :
    readLiteral d ((d.quoteString s).toList ++ rest) = some (s, rest) := by
  have hbody : readBody d (s.toList.flatMap d.escape ++ '\'' :: rest) = some (s.toList, rest) := by
    rw [readBody_escapes, readBody_close d h]
    simp [behind]
  rw [toList_quoteString_append, readLiteral, if_pos rfl, hbody]
  simp

/-- **A string is read back from its literal**, whatever stands behind it but another quote. So no two
strings have the same literal, and none ends before its literal does or goes on behind it. -/
theorem readLiteral_quoteString (d : Dialect) :
    (∀ (s : String) (rest : List Char), rest.head? ≠ some '\'' →
      readLiteral d ((d.quoteString s).toList ++ rest) = some (s, rest)) ∧
    Function.Injective d.quoteString ∧
    ∀ (s s' : String) (rest rest' : List Char), rest.head? ≠ some '\'' → rest'.head? ≠ some '\'' →
      (d.quoteString s).toList ++ rest = (d.quoteString s').toList ++ rest' →
        s = s' ∧ rest = rest' := by
  have hunique (s s' : String) (rest rest' : List Char) (hr : rest.head? ≠ some '\'')
      (hr' : rest'.head? ≠ some '\'')
      (he : (d.quoteString s).toList ++ rest = (d.quoteString s').toList ++ rest') :
      s = s' ∧ rest = rest' :=
    unique_of_reads (fun _ _ h => h) (readLiteral_of_quoteString d) hr hr' he
  refine ⟨readLiteral_of_quoteString d, ?_, hunique⟩
  intro s s' he
  exact (hunique s s' [] [] (fun h => nomatch h) (fun h => nomatch h) (by rw [he])).1

/-- a backslash at the end of a string does not take the closing quote with it -/
theorem readLiteral_quoteString_backslash_at_end :
    readLiteral .mysql "'it\\'s \\Z\\\\' OR 1".toList = some ("it's \x1a\\", " OR 1".toList) ∧
      readLiteral .postgres "'it''s \x1a\\' OR 1".toList = some ("it's \x1a\\", " OR 1".toList) ∧
      ∀ (s : String) (rest : List Char), rest.head? ≠ some '\'' →
        (Dialect.mysql.quoteString s).toList ++ rest = "'it\\'s \\Z\\\\' OR 1".toList →
          s = "it's \x1a\\" ∧ rest = " OR 1".toList := by
  have hr : " OR 1".toList.head? ≠ some '\'' := by decide
  obtain ⟨hmysql, _, hunique⟩ := readLiteral_quoteString .mysql
  obtain ⟨hpostgres, _, _⟩ := readLiteral_quoteString .postgres
  refine ⟨?_, ?_, ?_⟩
  · exact hmysql "it's \x1a\\" " OR 1".toList hr
  · exact hpostgres "it's \x1a\\" " OR 1".toList hr
  · intro s rest hrest he
    exact hunique s "it's \x1a\\" rest " OR 1".toList hrest hr he

/-! ## names -/

/-- the segments of a name from its first opening quote on, and what stands behind the name -/
def readPath (d : Dialect) : List Char → Option (List String × List Char)
  | [] => none
  | c :: cs => if c = d.identifierQuote then readName d.identifierQuote cs else none

/-- the pieces of a name between its dots, empty ones too -/
def pieces (name : String) : List String := (name.toList.splitOn '.').map String.ofList

theorem parts_eq_splitOn (mark : Char) (cs : List Char) : parts mark cs = cs.splitOn mark := by
  induction cs with
  | nil => rfl
  | cons c cs ih =>
    by_cases h : c = mark
    · rw [h, parts_mark, List.splitOn_cons_eq_if_modifyHead, if_pos (beq_self_eq_true mark), ih]
    · have hb : ¬ (c == mark) = true := by simpa using h
      obtain ⟨p, ps, hps⟩ := List.exists_cons_of_ne_nil (List.splitOn_ne_nil mark cs)
      rw [parts, if_neg h, List.splitOn_cons_eq_if_modifyHead, if_neg hb, ih, hps]
      rfl

theorem join_pieces (name : String) : ".".intercalate (pieces name) = name := by
  have hlists : (pieces name).map String.toList = name.toList.splitOn '.' := by
    simp [pieces]
  have hjoin : (".".intercalate (pieces name)).toList = name.toList := by
    rw [String.toList_intercalate, hlists]
    exact List.intercalate_splitOn '.'
  exact String.toList_inj.mp hjoin

theorem readPath_of_quoteIdentifier (d : Dialect) (name : String) (rest : List Char)
    (h : rest.head? ≠ some d.identifierQuote ∧ rest.head? ≠ some '.') :
    readPath d ((d.quoteIdentifier name).toList ++ rest) = some (pieces name, rest) := by
  obtain ⟨cs, hcs, hread⟩ := readName_quoteSegments d (parts_ne_nil '.' name.toList) h.1 h.2
  rw [Dialect.quoteIdentifier, String.toList_ofList, hcs, List.cons_append, readPath, if_pos rfl,
    hread, parts_eq_splitOn]
  rfl

/-- **The pieces of a name are read back from its quotes**, whatever stands behind them but another
quote or a dot, and they make up the name. So no two names are quoted alike, and no name ends before
its quotes do or goes on behind them. -/
theorem readPath_quoteIdentifier (d : Dialect) :
    (∀ (name : String) (rest : List Char), rest.head? ≠ some d.identifierQuote →
      rest.head? ≠ some '.' →
        readPath d ((d.quoteIdentifier name).toList ++ rest) = some (pieces name, rest)) ∧
    (∀ name : String, ".".intercalate (pieces name) = name) ∧
    Function.Injective d.quoteIdentifier ∧
    ∀ (name name' : String) (rest rest' : List Char),
      rest.head? ≠ some d.identifierQuote → rest.head? ≠ some '.' →
      rest'.head? ≠ some d.identifierQuote → rest'.head? ≠ some '.' →
        (d.quoteIdentifier name).toList ++ rest = (d.quoteIdentifier name').toList ++ rest' →
          name = name' ∧ rest = rest' := by
  have hview : Function.Injective pieces := by
    intro name name' h
    rw [← join_pieces name, h, join_pieces]
  have hunique (name name' : String) (rest rest' : List Char)
      (hq : rest.head? ≠ some d.identifierQuote) (hdot : rest.head? ≠ some '.')
      (hq' : rest'.head? ≠ some d.identifierQuote) (hdot' : rest'.head? ≠ some '.')
      (he : (d.quoteIdentifier name).toList ++ rest = (d.quoteIdentifier name').toList ++ rest') :
      name = name' ∧ rest = rest' :=
    unique_of_reads hview (readPath_of_quoteIdentifier d) ⟨hq, hdot⟩ ⟨hq', hdot'⟩ he
  refine ⟨?_, join_pieces, ?_, hunique⟩
  · intro name rest hq hdot
    exact readPath_of_quoteIdentifier d name rest ⟨hq, hdot⟩
  · intro name name' he
    have hend (c : Char) : ([] : List Char).head? ≠ some c := fun h => nomatch h
    exact (hunique name name' [] [] (hend _) (hend _) (hend _) (hend _) (by rw [he])).1

/-- quotes and dots in a row: empty pieces, and a piece of quotes only -/
theorem readPath_quoteIdentifier_quotes_and_dots :
    readPath .mysql "``.````.`a` = 1".toList = some (["", "`", "a"], " = 1".toList) ∧
      ".".intercalate ["", "`", "a"] = ".`.a" ∧
      readPath .postgres "\"\"\"\"\"\".\"\" = 1".toList = some (["\"\"", ""], " = 1".toList) ∧
      ∀ (name : String) (rest : List Char), rest.head? ≠ some '"' → rest.head? ≠ some '.' →
        (Dialect.postgres.quoteIdentifier name).toList ++ rest = "\"\"\"\"\"\".\"\" = 1".toList →
          name = "\"\"." ∧ rest = " = 1".toList := by
  have hq (d : Dialect) : " = 1".toList.head? ≠ some d.identifierQuote := by
    cases d <;> decide
  have hdot : " = 1".toList.head? ≠ some '.' := by decide
  obtain ⟨hmysql, hjoin, _⟩ := readPath_quoteIdentifier .mysql
  obtain ⟨hpostgres, _, _, hunique⟩ := readPath_quoteIdentifier .postgres
  refine ⟨?_, ?_, ?_, ?_⟩
  · exact hmysql ".`.a" " = 1".toList (hq .mysql) hdot
  · exact hjoin ".`.a"
  · exact hpostgres "\"\"." " = 1".toList (hq .postgres) hdot
  · intro name rest hquote hdot' he
    exact hunique name "\"\"." rest " = 1".toList hquote hdot' (hq .postgres) hdot he

end WhereClause.Sql
