import WhereClause.Proofs.Settings.Members

/-!
# Members in any order

What a chain of members makes does not depend on their order: of two members next to each other each
does the same behind the other as in front of it. Foreign members do nothing, and leaving out a member
leaves what the others say.

* `Step.swap`          two members next to each other;
* `Chain.perm`         members in another order;
* `chain_append_foreign`  foreign members behind others;
* `Chain.without`      a member left out, wherever it stands;
* `read_rearranged`    texts with the same members, foreign ones apart.
-/

set_option autoImplicit false

namespace WhereClause.Settings

open WhereClause.Text WhereClause.Json

variable {k k₁ k₂ k' : Known} {m n : List Nat × List Char} {ms ns : List (List Nat × List Char)}

/-! ## two members -/

theorem Known.learn_comm (k : Known) (s t : Settings) {f g : Field} (h : f ≠ g) :
    (k.learn s f).learn t g = (k.learn t g).learn s f := by
  cases f <;> cases g <;> first | exact absurd rfl h | rfl

/-- of two members next to each other the second one may come first -/
theorem Step.swap (h : Step k m k₁) (h' : Step k₁ n k₂) :
    ∃ k₃, Step k n k₃ ∧ Step k₃ m k₂ := by
  cases h with
  | foreign hm => exact ⟨k₂, h', .foreign hm⟩
  | @field f s ws hf hs =>
    cases h' with
    | foreign hn => exact ⟨k, .foreign hn, .field hf hs⟩
    | @field g t vs hg ht =>
      rw [Known.has_learn, Bool.or_eq_false_iff, decide_eq_false_iff_not] at hg
      obtain ⟨hg, hne⟩ := hg
      have hf' : (k.learn t g).has f = false := by
        rw [Known.has_learn, hf, decide_eq_false (Ne.symm hne), Bool.or_false]
      rw [k.learn_comm s t hne]
      exact ⟨k.learn t g, .field hg ht, .field hf' hs⟩

/-! ## any order -/

/-- **Members may come in any order.** -/
theorem Chain.perm (h : Chain k ms k') (hperm : ms.Perm ns) : Chain k ns k' := by
  induction hperm generalizing k with
  | nil => exact h
  | cons m _ ih =>
    cases h with
    | cons hstep hs => exact .cons hstep (ih hs)
  | swap m n ms =>
    cases h with
    | cons hstep hs =>
      cases hs with
      | cons hstep' hs =>
        obtain ⟨k₃, hn, hm⟩ := hstep.swap hstep'
        exact .cons hn (.cons hm hs)
  | trans _ _ ih ih' => exact ih' (ih h)

theorem chain_append_iff : Chain k (ms ++ ns) k' ↔ ∃ k₁, Chain k ms k₁ ∧ Chain k₁ ns k' := by
  induction ms generalizing k with
  | nil =>
    refine ⟨fun h => ⟨k, .nil k, h⟩, ?_⟩
    rintro ⟨k₁, ⟨⟩, h⟩
    exact h
  | cons m ms ih =>
    constructor
    · intro h
      cases h with
      | cons hstep hs =>
        obtain ⟨k₁, hms, hns⟩ := ih.mp hs
        exact ⟨k₁, .cons hstep hms, hns⟩
    · rintro ⟨k₁, h, hns⟩
      cases h with
      | cons hstep hms => exact .cons hstep (ih.mpr ⟨k₁, hms, hns⟩)

/-! ## foreign members -/

/-- a member whose key is a string of characters and the name of no member of settings -/
def IsForeign (m : List Nat × List Char) : Prop :=
  ∃ key : String, m.1 = units key.toList ∧ ∀ f : Field, key ≠ f.name

theorem IsForeign.step_iff (hm : IsForeign m) : Step k m k' ↔ k' = k := by
  obtain ⟨us, ws⟩ := m
  obtain ⟨key, hkey, hname⟩ := hm
  obtain rfl : us = units key.toList := hkey
  have hforeign : ∀ f : Field, f.key ≠ units key.toList := fun f h =>
    hname f (String.toList_inj.mp (units_inj h)).symm
  constructor
  · intro h
    generalize hm : (units key.toList, ws) = m at h
    cases h with
    | foreign => rfl
    | @field f => exact absurd (congrArg Prod.fst hm).symm (hforeign f)
  · rintro rfl
    exact .foreign hforeign

theorem chain_foreign_iff (h : ∀ m ∈ ms, IsForeign m) : Chain k ms k' ↔ k' = k := by
  induction ms generalizing k with
  | nil =>
    constructor
    · rintro ⟨⟩
      rfl
    · rintro rfl
      exact .nil _
  | cons m ms ih =>
    obtain ⟨hm, hms⟩ := List.forall_mem_cons.mp h
    constructor
    · intro h
      cases h with
      | cons hstep hs => rw [(ih hms).mp hs, hm.step_iff.mp hstep]
    · rintro rfl
      exact .cons (hm.step_iff.mpr rfl) ((ih hms).mpr rfl)

/-- **Foreign members make no difference.** -/
theorem chain_append_foreign (h : ∀ n ∈ ns, IsForeign n) :
    Chain k (ms ++ ns) k' ↔ Chain k ms k' := by
  simp only [chain_append_iff, chain_foreign_iff h, exists_eq_right']

/-! ## members left out -/

/-- what is known but for a member -/
def Known.forget (k : Known) : Field → Known
  | .version => { k with version := none }
  | .dialect => { k with dialect := none }
  | .timeZone => { k with timeZone := none }
  | .maxDepth => { k with maxDepth := none }

/-- settings with the default for an optional member -/
def withDefault (s : Settings) : Field → Settings
  | .version => s
  | .dialect => { s with dialect := initial.dialect }
  | .timeZone => { s with timeZone := initial.timeZone }
  | .maxDepth => { s with maxDepth := initial.maxDepth }

theorem Known.forget_learn (k : Known) (s : Settings) (f : Field) :
    (k.learn s f).forget f = k.forget f := by
  cases f <;> rfl

theorem Known.forget_learn_of_ne (k : Known) (s : Settings) {f g : Field} (h : g ≠ f) :
    (k.learn s g).forget f = (k.forget f).learn s g := by
  cases f <;> cases g <;> first | exact absurd rfl h | rfl

theorem Known.has_forget_of_ne (k : Known) {f g : Field} (h : g ≠ f) :
    (k.forget f).has g = k.has g := by
  cases f <;> cases g <;> first | exact absurd rfl h | rfl

theorem Known.forget_eq_self {f : Field} (h : k.has f = false) : k.forget f = k := by
  obtain ⟨version, dialect, timeZone, maxDepth⟩ := k
  cases f <;>
  · obtain rfl := Option.isNone_iff_eq_none.mp (Option.isSome_eq_false_iff.mp h)
    rfl

/-- the settings without an optional member have its default and else what they had -/
theorem settings?_forget {s : Settings} {f : Field} (hf : f ≠ .version)
    (h : k.settings? = some s) : (k.forget f).settings? = some (s.withDefault f) := by
  obtain ⟨version, hversion, rfl⟩ := Option.map_eq_some_iff.mp h
  cases f with
  | version => exact absurd rfl hf
  | _ => simp [Known.forget, Known.settings?, hversion, withDefault]

/-- **A member may be left out**, and what the others say stays. -/
theorem Chain.without (h : Chain k ms k') (f : Field) :
    Chain (k.forget f) (ms.filter fun m => m.1 ≠ f.key) (k'.forget f) := by
  induction h with
  | nil k => exact .nil _
  | @cons k k₁ k' m ms hstep _ ih =>
    cases hstep with
    | foreign hkey =>
      rw [List.filter_cons_of_pos (by simpa using (hkey f).symm)]
      exact .cons (.foreign hkey) ih
    | @field g s ws hk hs =>
      by_cases hg : g = f
      · subst hg
        rw [List.filter_cons_of_neg (by simp), ← k.forget_learn s]
        exact ih
      · have hkey : g.key ≠ f.key := fun h => hg (key_inj h)
        rw [k.forget_learn_of_ne s hg] at ih
        rw [List.filter_cons_of_pos (by simpa using hkey)]
        exact .cons (.field ((k.has_forget_of_ne hg).trans hk) hs) ih

/-! ## texts -/

section

variable {text text' : String} {s : Settings}

theorem exists_error_of_not_ok (h : ∀ s, read text ≠ .ok s) : ∃ e, read text = .error e := by
  cases hr : read text with
  | error e => exact ⟨e, rfl⟩
  | ok s => exact absurd hr (h s)

/-- no member comes twice in a text that is read -/
theorem count_of_read (h : IsObject Piece ms text.toList) (hs : read text = .ok s) (f : Field) :
    (ms.map Prod.fst).count f.key ≤ 1 := by
  obtain ⟨k, hchain, -⟩ := (read_ok_iff h).mp hs
  have hcount := hchain.count f
  have hle := Bool.toNat_le (k.has f)
  omega

theorem version_of_read (h : IsObject Piece ms text.toList) (hs : read text = .ok s) :
    Field.version.key ∈ ms.map Prod.fst := by
  obtain ⟨k, hchain, hk⟩ := (read_ok_iff h).mp hs
  exact hchain.mem_keys (has_version_of_settings? hk) rfl

/-- the keys of a text that is read are made of characters: the half of a pair alone is none -/
theorem exists_key_of_read (h : IsObject Piece ms text.toList) (hs : read text = .ok s)
    (hm : m ∈ ms) : ∃ key : String, m.1 = units key.toList := by
  obtain ⟨k, hchain, -⟩ := (read_ok_iff h).mp hs
  clear h hs
  generalize ({} : Known) = k₀ at hchain
  induction hchain with
  | nil => exact absurd hm List.not_mem_nil
  | cons hstep _ ih =>
    rcases List.mem_cons.mp hm with rfl | hm
    · exact hstep.exists_key
    · exact ih hm

/-- a member that is left out has its default -/
theorem read_without (h : IsObject Piece ms text.toList) (hs : read text = .ok s) {f : Field}
    (hf : f ≠ .version)
    (h' : IsObject Piece (ms.filter fun m => m.1 ≠ f.key) text'.toList) :
    read text' = .ok (s.withDefault f) := by
  obtain ⟨k, hchain, hk⟩ := (read_ok_iff h).mp hs
  have hwithout := hchain.without f
  rw [Known.forget_eq_self (by cases f <;> rfl)] at hwithout
  exact (read_ok_iff h').mpr ⟨_, hwithout, settings?_forget hf hk⟩

theorem read_absent (h : IsObject Piece ms text.toList) (hs : read text = .ok s) {f : Field}
    (hf : f.key ∉ ms.map Prod.fst) : s.withDefault f = s := by
  by_cases hversion : f = .version
  · rw [hversion]
    rfl
  have hfilter : ms.filter (fun m => m.1 ≠ f.key) = ms := by
    refine List.filter_eq_self.mpr fun m hm => decide_eq_true ?_
    exact fun hkey => hf (List.mem_map.mpr ⟨m, hm, hkey⟩)
  have hread := read_without h hs hversion (hfilter.symm ▸ h)
  rw [hs] at hread
  exact (Except.ok.inj hread).symm

end

/-- **Neither the order of members nor foreign members matter.** A text that has the members of another
one in any order, and any foreign ones among them, is read as the same settings or not at all, as the
other is. No text is read in which one of the four members comes twice, or the version is missing, or a
key is no string of characters. A member that is not there has its default, and takes it alone when it
is left out. -/
theorem read_rearranged {ms ms' extra : List (List Nat × List Char)} {text text' : String}
    (h : IsObject Piece ms text.toList) (h' : IsObject Piece ms' text'.toList)
    (hperm : ms'.Perm (ms ++ extra)) (hextra : ∀ m ∈ extra, IsForeign m) :
    ((∃ e e', read text = .error e ∧ read text' = .error e') ∨
      ∃ s, read text = .ok s ∧ read text' = .ok s) ∧
    ((∃ f : Field, 2 ≤ (ms.map Prod.fst).count f.key) → ∃ e, read text = .error e) ∧
    (Field.version.key ∉ ms.map Prod.fst → ∃ e, read text = .error e) ∧
    ((∃ m ∈ ms, ∀ key : String, m.1 ≠ units key.toList) → ∃ e, read text = .error e) ∧
    ∀ s, read text = .ok s → ∀ f : Field,
      (f.key ∉ ms.map Prod.fst → s.withDefault f = s) ∧
      (f ≠ .version → ∀ bare : String,
        IsObject Piece (ms.filter fun m => m.1 ≠ f.key) bare.toList →
          read bare = .ok (s.withDefault f)) := by
  have hiff (s : Settings) : read text = .ok s ↔ read text' = .ok s := by
    have hchain (k : Known) : Chain {} ms' k ↔ Chain {} ms k :=
      Iff.trans ⟨fun h => h.perm hperm, fun h => h.perm hperm.symm⟩ (chain_append_foreign hextra)
    simp only [read_ok_iff h, read_ok_iff h', hchain]
  refine ⟨?_, ?_, ?_, ?_, ?_⟩
  · cases hr : read text with
    | ok s => exact .inr ⟨s, rfl, (hiff s).mp hr⟩
    | error e =>
      obtain ⟨e', he'⟩ := exists_error_of_not_ok fun s hs =>
        absurd (hr.symm.trans ((hiff s).mpr hs)) (fun h => nomatch h)
      exact .inl ⟨e, e', rfl, he'⟩
  · rintro ⟨f, hf⟩
    refine exists_error_of_not_ok fun s hs => ?_
    have hle := count_of_read h hs f
    omega
  · intro hversion
    exact exists_error_of_not_ok fun s hs => hversion (version_of_read h hs)
  · rintro ⟨m, hm, hkey⟩
    refine exists_error_of_not_ok fun s hs => ?_
    obtain ⟨key, hunits⟩ := exists_key_of_read h hs hm
    exact hkey key hunits
  · intro s hs f
    exact ⟨read_absent h hs, fun hf bare => read_without h hs hf⟩

/-- the same members turned round behind a foreign one, with a number out of range and half a pair -/
theorem read_rearranged_foreign :
    let s : Settings := { version := 7, timeZone := "Z" }
    read "\x7b\"version\": 7, \"timeZone\": \"Z\"\x7d" = .ok s ∧
      read "\x7b\"x\": [1e999, \"\\ud800\"], \"timeZone\": \"Z\", \"version\": 7\x7d" = .ok s ∧
      read "\x7b\"version\": 7\x7d" = .ok (s.withDefault .timeZone) := by
  intro s
  let version : String × List Char := ("version", ['7'])
  let timeZone : String × List Char := ("timeZone", ['"', 'Z', '"'])
  let x : String × List Char := ("x", "[1e999, \"\\ud800\"]".toList)
  have hs : read "\x7b\"version\": 7, \"timeZone\": \"Z\"\x7d" = .ok s := by rfl
  have h : IsObject Piece ([version, timeZone].map inUnits)
      "\x7b\"version\": 7, \"timeZone\": \"Z\"\x7d".toList :=
    isObject_of_bracketed (by decide +kernel) (by decide +kernel)
  have h' : IsObject Piece ([x, timeZone, version].map inUnits)
      "\x7b\"x\": [1e999, \"\\ud800\"], \"timeZone\": \"Z\", \"version\": 7\x7d".toList :=
    isObject_of_bracketed (by decide +kernel) (by decide +kernel)
  have hbare : IsObject Piece ([version].map inUnits) "\x7b\"version\": 7\x7d".toList :=
    isObject_of_bracketed (by decide +kernel) (by decide +kernel)
  have hfilter : ([version, timeZone].map inUnits).filter (fun m => m.1 ≠ Field.timeZone.key) =
      [version].map inUnits := by decide
  have hname (f : Field) : "x" ≠ f.name := by cases f <;> decide
  have hforeign : ∀ m ∈ [inUnits x], IsForeign m :=
    List.forall_mem_singleton.mpr ⟨"x", by rw [inUnits], hname⟩
  obtain ⟨hsame, -, -, -, hdefault⟩ := read_rearranged h h' (by decide) hforeign
  have hbare' := (hdefault s hs .timeZone).2 (by decide) _ (hfilter ▸ hbare)
  obtain ⟨e, _, he, -⟩ | ⟨s', hread, hread'⟩ := hsame
  · cases hs.symm.trans he
  · obtain rfl : s = s' := Except.ok.inj (hs.symm.trans hread)
    exact ⟨hs, hread', hbare'⟩

/-- **A key that is no string of characters is refused**, although it is the name of no member: half of a
pair alone, which an escape can name. -/
theorem exists_foreign_refused :
    let version : List Nat × List Char := (Field.version.key, ['1'])
    let half : List Nat × List Char := ([0xD800], ['0'])
    IsObject Piece [version] "\x7b\"version\":1\x7d".toList ∧
      IsObject Piece [version, half] "\x7b\"version\":1,\"\\ud800\":0\x7d".toList ∧
      (∀ f : Field, half.1 ≠ f.key) ∧ read "\x7b\"version\":1\x7d" = .ok { version := 1 } ∧
      ∃ e, read "\x7b\"version\":1,\"\\ud800\":0\x7d" = .error e := by
  intro version half
  have hone (rest : List Char) : Piece ['1'] ('1' :: rest) rest :=
    ⟨rfl, _, .number (spells_decimal 1 [])⟩
  have hzero (rest : List Char) : Piece ['0'] ('0' :: rest) rest :=
    ⟨rfl, _, .number (.plain (.zero []) (.none []) (.none []))⟩
  have hversion (rest : List Char) :
      Member Piece version ("\"version\":1".toList ++ rest) rest :=
    .mk (characters_of_readQuoted (s := "version") rfl) (.none _) (.none _) (hone rest)
  have hhalf (rest : List Char) : Member Piece half ("\"\\ud800\":0".toList ++ rest) rest :=
    .mk (.code (by decide) (.close _)) (.none _) (.none _) (hzero rest)
  refine ⟨⟨_, [], .none _, .some (.none _) (hversion _) (.none (.none _)), .none []⟩,
    ⟨_, [], .none _, .some (.none _) (hversion _) ?_, .none []⟩, ?_, by rfl, _, by rfl⟩
  · exact .more (.none _) (.none _) (hhalf _) (.none (.none _))
  · intro f
    cases f <;> decide

end WhereClause.Settings
