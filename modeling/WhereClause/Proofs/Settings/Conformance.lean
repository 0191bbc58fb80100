import WhereClause.Proofs.Json.Schema
import WhereClause.Proofs.Settings.Members
import WhereClause.Settings.Schema

/-!
# Settings and their schema

Texts that are read as settings are JSON texts, and have one document each, but these documents need
not be valid against the schema. Apart from the objects that the schema allows there are arrays, with
the values of the members in their order, and a dialect may be an object with the dialect for its
one key.

* `valid_schema_iff`       the schema in plain words;
* `fits_of_readField`      the value of a member that is read;
* `exists_members_of_readObject`, `exists_elements_of_readArray`  objects and arrays that are read;
* `conforms_of_read`       the document of a text that is read.
-/

set_option autoImplicit false

namespace WhereClause.Settings

open WhereClause.Number WhereClause.Text WhereClause.Sql WhereClause.Json

/-! ## the schema in plain words -/

/-- what the schema asks of a member -/
def Wanted : Field → Document → Prop
  | .version, v => ∃ n : ℕ, v = .number n
  | .dialect, v => ∃ d : Dialect, v = .string (units d.name.toList)
  | .timeZone, v => ∃ us, v = .string us
  | .maxDepth, v => ∃ n : ℕ, v = .number n

theorem exact_leastMinimum : Number.exact (.double (Binary64.zero false)) = 0 := by
  simp [Number.exact, Binary64.zero]

theorem natural_iff {v : Document} :
    (v.HasType "integer" ∧ ∀ q, v = .number q → 0 ≤ q) ↔ ∃ n : ℕ, v = .number n := by
  constructor
  · rintro ⟨htype, hleast⟩
    cases v with
    | number q =>
      obtain ⟨n, rfl⟩ : ∃ n : ℤ, q = n := by simpa [Document.HasType] using htype
      have hn : (0 : ℤ) ≤ n := by exact_mod_cast hleast n rfl
      obtain ⟨m, rfl⟩ := Int.eq_ofNat_of_zero_le hn
      exact ⟨m, rfl⟩
    | _ => exact absurd htype (by simp [Document.HasType])
  · rintro ⟨n, rfl⟩
    refine ⟨.inr ⟨rfl, n, by simp⟩, fun q hq => ?_⟩
    cases hq
    exact_mod_cast Nat.zero_le n

theorem string_iff {v : Document} : v.HasType "string" ↔ ∃ us, v = .string us := by
  cases v <;> simp [Document.HasType]

theorem valid_dialectSchema_iff {v : Document} :
    Valid schema dialectSchema v ↔ Wanted .dialect v := by
  have hnames : Valid schema dialectSchema v ↔ v.HasType "string" ∧
      (v = .string (units Dialect.mysql.name.toList) ∨
        v = .string (units Dialect.postgres.name.toList)) := by
    simp [dialectSchema, valid_object_iff, Asserts, schemasOf, memberSchemasOf, annotations]
  rw [hnames]
  constructor
  · rintro ⟨-, rfl | rfl⟩
    · exact ⟨.mysql, rfl⟩
    · exact ⟨.postgres, rfl⟩
  · rintro ⟨d, rfl⟩
    refine ⟨rfl, ?_⟩
    cases d with
    | mysql => exact .inl rfl
    | postgres => exact .inr rfl

theorem resolve_dialect : resolve schema "#/definitions/Dialect" = some dialectSchema := rfl

/-- **What the schema says of a member.** -/
theorem valid_memberSchema_iff {f : Field} {v : Document} :
    Valid schema (memberSchema f) v ↔ Wanted f v := by
  cases f with
  | version | maxDepth =>
    rw [Wanted, ← natural_iff]
    simp [memberSchema, leastMinimum, valid_object_iff, Asserts, schemasOf, memberSchemasOf,
      annotations, exact_leastMinimum]
  | dialect =>
    rw [← valid_dialectSchema_iff]
    simp [memberSchema, valid_object_iff, Asserts, schemasOf, memberSchemasOf, annotations,
      resolve_dialect]
  | timeZone =>
    rw [Wanted, ← string_iff]
    simp [memberSchema, valid_object_iff, Asserts, schemasOf, memberSchemasOf, annotations]

/-- **What the schema says**: an object with a version, whose members are as wanted wherever they
have the name of one. -/
theorem valid_schema_iff {v : Document} :
    Valid schema schema v ↔ v.HasType "object" ∧ (∃ w, v.HasMember Field.version.name w) ∧
      ∀ (f : Field) w, v.HasMember f.name w → Wanted f w := by
  have hkeywords (root : Json) : Valid root schema v ↔
      (v.HasType "object" ∧ (v.HasType "object" → ∃ w, v.HasMember Field.version.name w)) ∧
        ∀ f ∈ Field.all, ∀ w, v.HasMember f.name w → Valid root (memberSchema f) w := by
    rw [schema, valid_object_iff]
    simp [-Prod.forall, Asserts, schemasOf, memberSchemasOf, annotations]
  rw [hkeywords]
  constructor
  · rintro ⟨⟨htype, hversion⟩, hmembers⟩
    exact ⟨htype, hversion htype, fun f w hw => valid_memberSchema_iff.mp (hmembers f f.mem_all w hw)⟩
  · rintro ⟨htype, hversion, hmembers⟩
    exact ⟨⟨htype, fun _ => hversion⟩, fun f _ w hw => valid_memberSchema_iff.mpr (hmembers f w hw)⟩

/-! ## the values of members -/

/-- what is read for a member: what the schema asks of it, or a dialect in its other form -/
def Fits (f : Field) (v : Document) : Prop := Wanted f v ∨ f = .dialect ∧ ∃ d, v = variant d

theorem Says.exists_fits {s : Settings} {f : Field} {cs rest : List Char} (h : Says s f cs rest) :
    ∃ v, Spells v cs rest ∧ Fits f v := by
  cases h with
  | version h hx =>
    refine ⟨_, .number h, .inl ⟨s.version.toNat, ?_⟩⟩
    rw [exact_of_value hx, Int.cast_natCast]
  | dialect h => exact ⟨_, h, .inl ⟨_, rfl⟩⟩
  | variant h => exact ⟨_, h, .inr ⟨rfl, _, rfl⟩⟩
  | timeZone h => exact ⟨_, h, .inl ⟨_, rfl⟩⟩
  | maxDepth h hx =>
    refine ⟨_, .number h, .inl ⟨s.maxDepth.toNat, ?_⟩⟩
    rw [exact_of_value hx, Int.cast_natCast]

/-- **What is read for a member fits it.** -/
theorem fits_of_readField {k k' : Known} {f : Field} {cs rest : List Char}
    (h : readField k f cs = .ok (k', rest)) : ∃ v, Behind Spells v cs rest ∧ Fits f v := by
  obtain ⟨s, ⟨c₁, hb, hs⟩, -⟩ := says_of_readField h
  obtain ⟨v, hv, hfits⟩ := hs.exists_fits
  exact ⟨v, ⟨c₁, hb, hv⟩, hfits⟩

/-! ## objects -/

/-- a member by its characters and by its document -/
def SameMember (m : List Nat × List Char) (d : List Nat × Document) : Prop :=
  m.1 = d.1 ∧ Spells d.2 m.2 []

theorem exists_documents {ms : List (List Nat × List Char)} {cs rest : List Char}
    (h : Items (Member Piece) ms cs rest) :
    ∃ ds, List.Forall₂ SameMember ms ds ∧ Items (Member Spells) ds cs rest := by
  refine Items.exists_forall₂ (h.imp fun m cs rest hm => ?_)
  cases hm with
  | @mk key _ _ _ _ _ _ hk hb hb' hv =>
    obtain ⟨rfl, d, hd⟩ := hv
    obtain ⟨ws, hws, hmoves⟩ := hd.moves
    rw [List.append_nil] at hws
    exact ⟨(key, d), ⟨rfl, hd⟩, .mk hk hb hb' (hws ▸ hmoves _)⟩

theorem map_fst_of_sameMember {ms : List (List Nat × List Char)} {ds : List (List Nat × Document)}
    (h : List.Forall₂ SameMember ms ds) : ms.map Prod.fst = ds.map Prod.fst := by
  induction h with
  | nil => rfl
  | cons hm _ ih => rw [List.map_cons, List.map_cons, hm.1, ih]

theorem Step.fits {k k' : Known} {m : List Nat × List Char} {f : Field} {v : Document}
    (h : Step k m k') (hd : SameMember m (f.key, v)) : Fits f v := by
  obtain ⟨hkey, hv⟩ := hd
  cases h with
  | foreign hforeign => exact absurd hkey.symm (hforeign f)
  | field _ hs =>
    obtain rfl := key_inj hkey
    obtain ⟨w, hw, hfits⟩ := hs.exists_fits
    obtain ⟨rfl, -⟩ : v = w ∧ _ := hv.sole.2 rfl w [] hw rfl
    exact hfits

theorem Chain.fits {k k' : Known} {ms : List (List Nat × List Char)}
    {ds : List (List Nat × Document)} (h : Chain k ms k') (hds : List.Forall₂ SameMember ms ds)
    {f : Field} {v : Document} (hv : (f.key, v) ∈ ds) : Fits f v := by
  induction hds generalizing k with
  | nil => exact absurd hv List.not_mem_nil
  | cons hm _ ih =>
    cases h with
    | cons hstep hs =>
      rcases List.mem_cons.mp hv with rfl | hv
      · exact hstep.fits hm
      · exact ih hs hv

/-- **An object that is read has a version, and its members fit.** -/
theorem exists_members_of_readObject {cs rest : List Char} {s : Settings}
    (h : readObject cs = .ok (s, rest)) : ∃ ms, Items (Member Spells) ms cs ('\x7d' :: rest) ∧
      (∃ v, (Field.version.key, v) ∈ ms) ∧ ∀ (f : Field) v, (f.key, v) ∈ ms → Fits f v := by
  obtain ⟨ms, k, hms, hchain, hk⟩ := exists_chain_of_readObject h
  obtain ⟨ds, hds, hitems⟩ := exists_documents hms
  refine ⟨ds, hitems, ?_, fun f v => hchain.fits hds⟩
  have hversion := hchain.mem_keys (has_version_of_settings? hk) rfl
  rw [map_fst_of_sameMember hds] at hversion
  obtain ⟨⟨_, v⟩, hv, rfl⟩ := List.mem_map.mp hversion
  exact ⟨v, hv⟩

/-! ## arrays -/

theorem blanks_of_readArrayEnd {cs rest : List Char} (h : readArrayEnd cs = .ok rest) :
    Blanks cs (']' :: rest) := by
  unfold readArrayEnd at h
  split at h
  · cases h
  · next c c₁ hs =>
    split_ifs at h with hclose hcomma
    · cases h
      exact hclose ▸ blanks_of_skipSpace hs
    · split at h
      · split at h <;> cases h
      · cases h

/-- elements behind another one, and the closing bracket -/
theorem exists_elements_of_readElements {fs : List Field} {k k' : Known} {cs c₁ rest : List Char}
    (h : readElements false fs k cs = .ok (k', c₁)) (hend : readArrayEnd c₁ = .ok rest) :
    ∃ gs vs, gs <+: fs ∧ List.Forall₂ Fits gs vs ∧ Further Spells vs cs (']' :: rest) := by
  have hclosing := blanks_of_readArrayEnd hend
  induction fs generalizing k cs with
  | nil =>
    cases h
    exact ⟨[], [], List.nil_prefix, .nil, .none hclosing⟩
  | cons f fs ih =>
    rw [readElements] at h
    split at h
    · cases h
    · next c c₂ hs =>
      have hb := blanks_of_skipSpace hs
      split at h
      · cases h
        exact ⟨[], [], List.nil_prefix, .nil, .none (hb.trans hclosing)⟩
      · rw [if_neg Bool.false_ne_true] at h
        split at h
        · next hcomma =>
          split at h
          · cases h
          · next d c₃ hs' =>
            split at h
            · cases h
            · obtain ⟨⟨k₁, c₄⟩, hfield, h⟩ := bind_ok_iff.mp h
              obtain ⟨v, hv, hfits⟩ := fits_of_readField hfield
              obtain ⟨c₅, hb', hv⟩ := hv.blanks (blanks_of_skipSpace hs')
              obtain ⟨gs, vs, hgs, hall, hvs⟩ := ih h
              exact ⟨f :: gs, v :: vs, List.cons_prefix_cons.mpr ⟨rfl, hgs⟩, .cons hfits hall,
                .more (hcomma ▸ hb) hb' hv hvs⟩
        · cases h

/-- **An array that is read has values for the first members, and each fits.** -/
theorem exists_elements_of_readArray {cs rest : List Char} {s : Settings}
    (h : readArray cs = .ok (s, rest)) : ∃ fs vs, fs <+: Field.all ∧ fs ≠ [] ∧
      List.Forall₂ Fits fs vs ∧ Items Spells vs cs (']' :: rest) := by
  unfold readArray at h
  obtain ⟨⟨k, c₁⟩, helements, h⟩ := bind_ok_iff.mp h
  dsimp only at h
  split at h
  · next s' hk =>
    obtain ⟨c₂, hend, h⟩ := bind_ok_iff.mp h
    cases h
    rw [Field.all, readElements] at helements
    split at helements
    · cases helements
    · next c c₃ hs =>
      split at helements
      · cases helements
        exact absurd (has_version_of_settings? hk) Bool.false_ne_true
      · rw [if_pos rfl] at helements
        obtain ⟨⟨k₁, c₄⟩, hfield, helements⟩ := bind_ok_iff.mp helements
        obtain ⟨v, hv, hfits⟩ := fits_of_readField hfield
        obtain ⟨c₅, hb, hv⟩ := hv.blanks (blanks_of_skipSpace hs)
        obtain ⟨gs, vs, hgs, hall, hvs⟩ := exists_elements_of_readElements helements hend
        exact ⟨.version :: gs, v :: vs, List.cons_prefix_cons.mpr ⟨rfl, hgs⟩,
          List.cons_ne_nil _ _, .cons hfits hall, .some hb hv hvs⟩
  · cases h

/-! ## documents -/

/-- the documents that texts of settings have -/
inductive Conforms : Document → Prop where
  | valid {v : Document} (h : Valid schema schema v) : Conforms v
  /-- an object that the schema would allow if its dialect were a string -/
  | variant {ms : List (List Nat × Document)} (hversion : ∃ v, (Field.version.key, v) ∈ ms)
      (hdialect : ∃ d, (Field.dialect.key, variant d) ∈ ms)
      (h : ∀ (f : Field) v, (f.key, v) ∈ ms → Fits f v) : Conforms (.object ms)
  /-- values for the first members, one after the other -/
  | array {fs : List Field} {vs : List Document} (hfs : fs <+: Field.all) (hne : fs ≠ [])
      (h : List.Forall₂ Fits fs vs) : Conforms (.array vs)

theorem conforms_object {ms : List (List Nat × Document)}
    (hversion : ∃ v, (Field.version.key, v) ∈ ms)
    (h : ∀ (f : Field) v, (f.key, v) ∈ ms → Fits f v) : Conforms (.object ms) := by
  by_cases hdialect : ∃ d, (Field.dialect.key, variant d) ∈ ms
  · exact .variant hversion hdialect h
  · refine .valid (valid_schema_iff.mpr ⟨rfl, hversion, fun f v hv => ?_⟩)
    rcases h f v hv with hwanted | ⟨rfl, d, rfl⟩
    · exact hwanted
    · exact absurd ⟨d, hv⟩ hdialect

theorem exists_document_of_read {text : String} {s : Settings} (h : read text = .ok s) :
    ∃ v, IsText v text.toList ∧ Conforms v := by
  obtain ⟨⟨s', rest⟩, hsettings, hend⟩ := bind_ok_iff.mp (mapError_ok_iff.mp h)
  obtain ⟨u, hblanks, hs'⟩ := bind_ok_iff.mp hend
  have hrest := blanks_of_readEnd (lift_ok_iff.mp hblanks)
  unfold readSettings at hsettings
  split at hsettings
  · cases hsettings
  · next c c₁ hs =>
    have hb := blanks_of_skipSpace hs
    split_ifs at hsettings with hsquare hcurly
    · obtain ⟨fs, vs, hfs, hne, hall, hvs⟩ := exists_elements_of_readArray hsettings
      exact ⟨.array vs, ⟨rest, ⟨_, hb, hsquare ▸ .array hvs⟩, hrest⟩, .array hfs hne hall⟩
    · obtain ⟨ms, hms, hversion, hfits⟩ := exists_members_of_readObject hsettings
      exact ⟨.object ms, ⟨rest, ⟨_, hb, hcurly ▸ .object hms⟩, hrest⟩,
        conforms_object hversion hfits⟩

/-- **A text that is read has one document**, which is valid against the schema or nearly so: its dialect
may be an object, and the values of the members may stand in an array. -/
theorem conforms_of_read {text : String} {s : Settings} (h : read text = .ok s) :
    ∃ v, IsText v text.toList ∧ (∀ w, IsText w text.toList → w = v) ∧ Conforms v := by
  obtain ⟨v, hv, hconforms⟩ := exists_document_of_read h
  exact ⟨v, hv, fun w hw => hw.unique hv, hconforms⟩

/-- settings with the dialect as an object, and with a member that nobody asks for -/
def oddSettings : String :=
  "\x7b\"dialect\": \x7b\"postgres\": null\x7d, \"x\": [0.5e1, \"\\ud800\"], \"version\": 7\x7d"

theorem conforms_of_read_odd :
    read oddSettings = .ok { version := 7, dialect := .postgres } ∧
      ∃ v, IsText v oddSettings.toList ∧ (∀ w, IsText w oddSettings.toList → w = v) ∧
        Conforms v :=
  ⟨rfl, conforms_of_read rfl⟩

/-- an array is read as settings, and the schema allows none -/
theorem exists_read_invalid :
    ∃ text s, read text = .ok s ∧ ∀ v, IsText v text.toList → ¬ Valid schema schema v := by
  refine ⟨"[1]", { version := 1 }, rfl, ?_⟩
  rintro v ⟨rest, ⟨c₁, hb, hv⟩, -⟩ hvalid
  have htype := (valid_schema_iff.mp hvalid).1
  have htext : "[1]".toList = ['[', '1', ']'] := rfl
  rw [htext] at hb
  cases hb with
  | none =>
    -- what begins with a square bracket is no object
    cases hv <;> simp [Document.HasType] at htype
  | more hc => exact absurd hc (by decide)

end WhereClause.Settings
