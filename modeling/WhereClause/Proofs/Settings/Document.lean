import WhereClause.Proofs.Intercalate
import WhereClause.Proofs.Settings.Members

/-!
# Settings read back

The document that is written for settings is read as these settings, whatever they are: any version,
either dialect, any text as time zone and any depth.

* `says_valueText`    the value of a member says what the settings have;
* `isObject_fileText`  the document is an object of the four members;
* `read_fileText`     the whole document.
-/

set_option autoImplicit false

namespace WhereClause.Settings

open WhereClause.Text WhereClause.Sql WhereClause.Json

/-! ## the members of settings -/

/-- the value of a member as it is written -/
def valueText (s : Settings) (f : Field) : List Char := (prettyAt 1 (s.memberJson f)).toList

/-- a member as it is written, without the blanks in front of it -/
def memberText (s : Settings) (f : Field) : List Char :=
  (quoted f.name).toList ++ ':' :: ' ' :: valueText s f

theorem integerText_natCast (n : Nat) : Number.integerText n = decimal n := by
  rw [Number.integerText, if_neg (Int.not_lt.mpr (Int.natCast_nonneg n))]
  rfl

theorem spells_quoted (t : String) (rest : List Char) :
    Spells (.string (units t.toList)) ((quoted t).toList ++ rest) rest := by
  rw [toList_quoted_append]
  exact .string (characters_of_readQuoted (readQuoted_quoted t rest))

/-- **The value of a member says what the settings have.** -/
theorem says_valueText (s : Settings) (f : Field) : Says s f (valueText s f) [] := by
  have hnumber (n : Nat) : (prettyAt 1 (.number (.integer n))).toList = decimal n ++ [] := by
    rw [prettyAt, Number.text, String.toList_ofList, integerText_natCast, List.append_nil]
  have hstring (t : String) : (prettyAt 1 (.string t)).toList = (quoted t).toList ++ [] := by
    rw [prettyAt, List.append_nil]
  have hroom {n limit : Nat} (hn : n < limit) (hlimit : limit ≤ maxSignificand + 1) :
      n ≤ maxSignificand := by omega
  rw [valueText]
  cases f with
  | version =>
    rw [memberJson, hnumber]
    exact .version (spells_decimal _ [])
      (value_decimal (hroom s.version.toNat_lt (by decide)) [])
  | dialect =>
    rw [memberJson, hstring]
    exact .dialect (spells_quoted _ [])
  | timeZone =>
    rw [memberJson, hstring]
    exact .timeZone (spells_quoted _ [])
  | maxDepth =>
    rw [memberJson, hnumber]
    exact .maxDepth (spells_decimal _ [])
      (value_decimal (hroom s.maxDepth.toNat_lt (by decide)) [])

/-- a member by its key and the characters of its value -/
def memberOf (s : Settings) (f : Field) : List Nat × List Char := (f.key, valueText s f)

theorem member_memberText (s : Settings) (f : Field) (rest : List Char) :
    Member Piece (s.memberOf f) (s.memberText f ++ rest) rest := by
  rw [memberText, List.append_assoc, toList_quoted_append]
  have hkey := characters_of_readQuoted (readQuoted_quoted f.name (':' :: ' ' :: valueText s f ++ rest))
  exact .mk hkey (.none _) (.more rfl (.none _)) ⟨rfl, (says_valueText s f).exists_spells⟩

/-- members that are different are read one after the other -/
theorem chain_memberOf (s : Settings) {k : Known} {fs : List Field} (hfs : fs.Nodup)
    (hk : ∀ f ∈ fs, k.has f = false) :
    Chain k (fs.map s.memberOf) (fs.foldl (Known.learn s) k) := by
  induction fs generalizing k with
  | nil => exact .nil k
  | cons f fs ih =>
    obtain ⟨hf, hfs⟩ := List.nodup_cons.mp hfs
    refine .cons (.field (hk f List.mem_cons_self) (says_valueText s f)) (ih hfs fun g hg => ?_)
    have hne : f ≠ g := fun h => hf (h ▸ hg)
    rw [Known.has_learn, hk g (List.mem_cons_of_mem f hg), decide_eq_false hne]
    rfl

/-! ## members one after the other -/

/-- what stands between the members of the document -/
def between : List Char := [',', '\n', ' ', ' ']

/-- the line end and the bracket behind the last member -/
def closing (rest : List Char) : List Char := '\n' :: '\x7d' :: rest

theorem blanks_line (cs : List Char) : Blanks ('\n' :: ' ' :: ' ' :: cs) cs :=
  .more rfl (.more rfl (.more rfl (.none cs)))

theorem further_memberText (s : Settings) (fs : List Field) (rest : List Char) :
    Further (Member Piece) (fs.map s.memberOf)
      (fs.flatMap (fun f => between ++ s.memberText f) ++ closing rest) ('\x7d' :: rest) := by
  induction fs with
  | nil => exact .none (.more rfl (.none _))
  | cons f fs ih =>
    rw [List.flatMap_cons, List.append_assoc, List.append_assoc]
    have hcomma (cs : List Char) : Blanks (between ++ cs) (',' :: '\n' :: ' ' :: ' ' :: cs) := .none _
    exact .more (hcomma _) (blanks_line _) (member_memberText s f _) ih

/-- the members with line ends between them -/
theorem items_memberText (s : Settings) (f : Field) (fs : List Field) (rest : List Char) :
    Items (Member Piece) ((f :: fs).map s.memberOf)
      (between.intercalate ((f :: fs).map s.memberText) ++ closing rest) ('\x7d' :: rest) := by
  rw [List.map_cons, List.map_cons, intercalate_cons_eq_flatMap, List.flatMap_map, List.append_assoc]
  exact .some (.none _) (member_memberText s f _) (further_memberText s fs rest)

/-! ## the document -/

theorem prettyMembers_eq_map (level : Nat) (ms : List (String × Json)) :
    prettyMembers level ms = ms.map fun m => quoted m.1 ++ ": " ++ prettyAt level m.2 := by
  induction ms with
  | nil => rfl
  | cons m ms ih => rw [prettyMembers, ih, List.map_cons]

theorem toList_block (level : Nat) {items : List String} (h : items ≠ []) :
    (block "\x7b" "\x7d" level items).toList =
      '\x7b' :: '\n' :: ([',', '\n'].intercalate
        (items.map fun i => (indentation (level + 1)).toList ++ i.toList) ++
        '\n' :: ((indentation level).toList ++ ['\x7d'])) := by
  cases items with
  | nil => exact absurd rfl h
  | cons i is =>
    have hlists : (((i :: is).map (indentation (level + 1) ++ ·)).map String.toList) =
        (i :: is).map fun i => (indentation (level + 1)).toList ++ i.toList := by
      simp
    rw [block]
    simp only [String.toList_append, String.toList_intercalate, hlists, List.append_assoc]
    · rfl
    · exact fun h => nomatch h

/-- the characters of the document -/
theorem toList_fileText (s : Settings) : s.fileText.toList =
    '\x7b' :: '\n' :: ' ' :: ' ' ::
      (between.intercalate (Field.all.map (memberText s)) ++ closing ['\n']) := by
  have hitems : (prettyMembers 1 (Field.all.map fun f => (f.name, s.memberJson f))).map
      (fun i => (indentation 1).toList ++ i.toList) =
        (Field.all.map (memberText s)).map fun m => [' ', ' '] ++ m ++ [] := by
    simp [prettyMembers_eq_map, memberText, valueText, Function.comp_def, indentation]
  rw [fileText, toJson, pretty, prettyAt, String.toList_append,
    toList_block 0 (by simp [prettyMembers_eq_map, Field.all]), hitems,
    intercalate_map_wrap [' ', ' '] [] [',', '\n'] (by simp [Field.all])]
  simp [between, closing, indentation]

theorem isObject_fileText (s : Settings) :
    IsObject Piece (Field.all.map s.memberOf) s.fileText.toList := by
  have hitems := items_memberText s .version [.dialect, .timeZone, .maxDepth] ['\n']
  rw [toList_fileText]
  exact ⟨_, ['\n'], .none _, hitems.blanks (blanks_line _), .more rfl (.none [])⟩

/-- **The document of settings is read as these settings.** -/
theorem read_fileText (s : Settings) : Settings.read s.fileText = .ok s := by
  have hchain : Chain {} (Field.all.map s.memberOf) (Field.all.foldl (Known.learn s) {}) :=
    chain_memberOf s (by decide) fun f _ => by cases f <;> rfl
  exact (read_ok_iff (isObject_fileText s)).mpr ⟨_, hchain, rfl⟩

end WhereClause.Settings
