import WhereClause.Proofs.Json.Pieces
import WhereClause.Settings.Reader

/-!
# The members of the settings document

Members are read one after the other, each with what is known from those before it. A member of a
foreign key is any value and changes nothing; one of the four says one thing and may say it once.

* `Says`                what is written for a member of settings;
* `says_of_readField`, `readField_of_says`  a member is read where it is written;
* `Step`, `Chain`       one member, and members one after the other, with what is known before and
  behind them;
* `chain_of_readMembers`, `readMembers_of_chain`  they are read as they follow each other;
* `read_ok_iff`         whole texts.
-/

set_option autoImplicit false

namespace WhereClause.Settings

open WhereClause.Number WhereClause.Text WhereClause.Sql WhereClause.Json

theorem lift_ok_iff {α : Type} {r : Except (Stop Json.Fault) α} {a : α} :
    lift r = .ok a ↔ r = .ok a := mapError_ok_iff

/-! ## what is written for members -/

/-- a dialect as an object: its name is the one key -/
def variant (d : Dialect) : Document := .object [(units d.name.toList, .null)]

/-- what is written for a member of settings. A number must be one of the integers that are read, so
its document does not tell. -/
inductive Says (s : Settings) : Field → List Char → List Char → Prop where
  | version {x : Numeral} {cs rest : List Char} (h : x.Spells cs rest)
      (hx : x.value [] = .ok (.integer s.version.toNat)) : Says s .version cs rest
  | dialect {cs rest : List Char} (h : Spells (.string (units s.dialect.name.toList)) cs rest) :
      Says s .dialect cs rest
  | variant {cs rest : List Char} (h : Spells (variant s.dialect) cs rest) : Says s .dialect cs rest
  | timeZone {cs rest : List Char} (h : Spells (.string (units s.timeZone.toList)) cs rest) :
      Says s .timeZone cs rest
  | maxDepth {x : Numeral} {cs rest : List Char} (h : x.Spells cs rest)
      (hx : x.value [] = .ok (.integer s.maxDepth.toNat)) : Says s .maxDepth cs rest

theorem Says.exists_spells {s : Settings} {f : Field} {cs rest : List Char}
    (h : Says s f cs rest) : ∃ v, Spells v cs rest := by
  cases h with
  | version h => exact ⟨_, .number h⟩
  | dialect h => exact ⟨_, h⟩
  | variant h => exact ⟨_, h⟩
  | timeZone h => exact ⟨_, h⟩
  | maxDepth h => exact ⟨_, .number h⟩

theorem Says.moves {s : Settings} {f : Field} {cs rest : List Char} (h : Says s f cs rest) :
    Moves (Says s) f cs rest := by
  cases h with
  | version h hx => exact h.moves.imp fun _ _ h => .version h hx
  | dialect h => exact h.moves.imp fun _ _ => .dialect
  | variant h => exact h.moves.imp fun _ _ => .variant
  | timeZone h => exact h.moves.imp fun _ _ => .timeZone
  | maxDepth h hx => exact h.moves.imp fun _ _ h => .maxDepth h hx

/-- what is known once a member of settings has been read -/
def Known.learn (s : Settings) (k : Known) : Field → Known
  | .version => { k with version := some s.version }
  | .dialect => { k with dialect := some s.dialect }
  | .timeZone => { k with timeZone := some s.timeZone }
  | .maxDepth => { k with maxDepth := some s.maxDepth }

theorem Known.has_learn (s : Settings) (k : Known) (f g : Field) :
    (k.learn s f).has g = (k.has g || decide (f = g)) := by
  cases f <;> cases g <;> simp [learn, has]

/-! ## values that are read -/

theorem exists_numeral_of_readNatural {limit n : Nat} {expected : Expected} {cs rest : List Char}
    (h : readNatural limit expected cs = .ok (n, rest)) : n < limit ∧ ∃ x : Numeral,
      Behind Numeral.Spells x cs rest ∧ x.value [] = .ok (.integer n) := by
  unfold readNatural at h
  split at h
  · cases h
  · next c c₁ hs =>
    split at h
    · obtain ⟨⟨m, c₂⟩, hm, h⟩ := bind_ok_iff.mp h
      cases m with
      | double x => cases h
      | integer m =>
        dsimp only at h
        split at h
        · next hrange =>
          cases h
          obtain ⟨x, hx, hvalue⟩ := exists_numeral_of_readNumber (lift_ok_iff.mp hm)
          refine ⟨by omega, x, ⟨_, blanks_of_skipSpace hs, hx⟩, ?_⟩
          rw [Int.toNat_of_nonneg hrange.1, hvalue]
        · cases h
    · cases h

theorem spells_of_readString {cs rest : List Char} {s : String}
    (h : readString cs = .ok (s, rest)) : Behind Spells (.string (units s.toList)) cs rest := by
  unfold readString at h
  split at h
  · cases h
  · next c c₁ hs =>
    split at h
    · next hquote =>
      have hspells := Spells.string (characters_of_readQuoted (lift_ok_iff.mp h))
      exact ⟨_, blanks_of_skipSpace hs, hquote ▸ hspells⟩
    · cases h

theorem characters_of_readDialectName {cs rest : List Char} {d : Dialect}
    (h : readDialectName cs = .ok (d, rest)) : Characters (units d.name.toList) cs rest := by
  obtain ⟨⟨name, c₁⟩, hname, h⟩ := bind_ok_iff.mp h
  dsimp only at h
  split at h
  · next d' hd =>
    cases h
    rw [Dialect.name_of_ofName? hd]
    exact characters_of_readQuoted (lift_ok_iff.mp hname)
  · cases h

theorem blanks_of_readNothing {cs rest : List Char} (h : readNothing cs = .ok rest) :
    Behind Spells .null cs rest := by
  unfold readNothing at h
  split at h
  · cases h
  · next c c₁ hs =>
    split at h
    · next hc =>
      rw [append_of_readWord (lift_ok_iff.mp h), hc] at hs
      exact ⟨_, blanks_of_skipSpace hs, .null rest⟩
    · cases h

theorem spells_of_readDialectObject {cs rest : List Char} {d : Dialect}
    (h : readDialectObject cs = .ok (d, rest)) : Spells (variant d) ('\x7b' :: cs) rest := by
  unfold readDialectObject at h
  split at h
  · cases h
  · next c c₁ hs =>
    split_ifs at h with hquote hclose
    · obtain ⟨⟨d', c₂⟩, hd, h⟩ := bind_ok_iff.mp h
      obtain ⟨c₃, hcolon, h⟩ := bind_ok_iff.mp h
      obtain ⟨c₄, hnull, h⟩ := bind_ok_iff.mp h
      split at h
      · cases h
      · next e c₅ hs' =>
        split at h
        · next hend =>
          cases h
          obtain ⟨c₆, hb, hnull'⟩ := blanks_of_readNothing hnull
          have hmember : Member Spells (units d.name.toList, .null) ('"' :: c₁) c₄ :=
            .mk (characters_of_readDialectName hd) (blanks_of_readColon (lift_ok_iff.mp hcolon)) hb
              hnull'
          exact .object (.some (hquote ▸ blanks_of_skipSpace hs) hmember
            (.none (hend ▸ blanks_of_skipSpace hs')))
        · cases h

theorem spells_of_readDialect {cs rest : List Char} {d : Dialect}
    (h : readDialect cs = .ok (d, rest)) :
    Behind Spells (.string (units d.name.toList)) cs rest ∨ Behind Spells (variant d) cs rest := by
  unfold readDialect at h
  split at h
  · cases h
  · next c c₁ hs =>
    have hb := blanks_of_skipSpace hs
    split_ifs at h with hquote hcurly
    · exact .inl ⟨_, hb, hquote ▸ .string (characters_of_readDialectName h)⟩
    · exact .inr ⟨_, hb, hcurly ▸ spells_of_readDialectObject h⟩

/-- what is read for a member is what settings say that have its value, and this is known behind it -/
theorem says_of_readField {k k' : Known} {f : Field} {cs rest : List Char}
    (h : readField k f cs = .ok (k', rest)) :
    ∃ s, Behind (Says s) f cs rest ∧ k' = k.learn s f := by
  cases f with
  | version =>
    obtain ⟨⟨n, c₁⟩, hn, h⟩ := bind_ok_iff.mp h
    cases h
    obtain ⟨hlimit, x, ⟨c₂, hb, hx⟩, hvalue⟩ := exists_numeral_of_readNatural hn
    have hnat : (UInt32.ofNat n).toNat = n := UInt32.toNat_ofNat_of_lt hlimit
    exact ⟨{ version := UInt32.ofNat n }, ⟨c₂, hb, .version hx (by rw [hnat, hvalue])⟩, rfl⟩
  | dialect =>
    obtain ⟨⟨d, c₁⟩, hd, h⟩ := bind_ok_iff.mp h
    cases h
    refine ⟨{ initial with dialect := d }, ?_, rfl⟩
    rcases spells_of_readDialect hd with ⟨c₂, hb, hname⟩ | ⟨c₂, hb, hvariant⟩
    · exact ⟨c₂, hb, .dialect hname⟩
    · exact ⟨c₂, hb, .variant hvariant⟩
  | timeZone =>
    obtain ⟨⟨t, c₁⟩, ht, h⟩ := bind_ok_iff.mp h
    cases h
    obtain ⟨c₂, hb, hstring⟩ := spells_of_readString ht
    exact ⟨{ initial with timeZone := t }, ⟨c₂, hb, .timeZone hstring⟩, rfl⟩
  | maxDepth =>
    obtain ⟨⟨n, c₁⟩, hn, h⟩ := bind_ok_iff.mp h
    cases h
    obtain ⟨hlimit, x, ⟨c₂, hb, hx⟩, hvalue⟩ := exists_numeral_of_readNatural hn
    have hnat : (UInt64.ofNat n).toNat = n := UInt64.toNat_ofNat_of_lt hlimit
    exact ⟨{ initial with maxDepth := UInt64.ofNat n },
      ⟨c₂, hb, .maxDepth hx (by rw [hnat, hvalue])⟩, rfl⟩

/-! ## values that are written -/

theorem readNatural_of_spells {limit n : Nat} (expected : Expected) {x : Numeral}
    {cs c₁ rest : List Char} (hb : Blanks cs c₁) (h : x.Spells c₁ rest)
    (hx : x.value [] = .ok (.integer n)) (hn : n < limit) (hr : endsNumeral rest = true) :
    readNatural limit expected cs = .ok (n, rest) := by
  have hs := hb.eq_skipSpace (Spells.number h).begins.1
  have hread := lift_ok_iff.mpr (readNumber_of_spells h hx hr)
  obtain ⟨c, ds, rfl, hc⟩ := h.exists_cons
  unfold readNatural
  rw [← hs]
  show (if c = '-' ∨ c.isDigit = true then _ else _) = _
  rw [if_pos hc, hread]
  show (if (0 : Int) ≤ n ∧ (n : Int) < limit then _ else _) = _
  rw [if_pos ⟨Int.natCast_nonneg n, Int.ofNat_lt.mpr hn⟩]
  rfl

theorem readString_of_spells {s : String} {cs c₁ rest : List Char} (hb : Blanks cs c₁)
    (h : Spells (.string (units s.toList)) c₁ rest) : readString cs = .ok (s, rest) := by
  have hs := hb.eq_skipSpace h.begins.1
  cases h with
  | string h =>
    unfold readString
    rw [← hs]
    exact lift_ok_iff.mpr (readQuoted_of_characters h)

theorem readDialectName_of_characters {d : Dialect} {cs rest : List Char}
    (h : Characters (units d.name.toList) cs rest) : readDialectName cs = .ok (d, rest) := by
  unfold readDialectName
  rw [lift_ok_iff.mpr (readQuoted_of_characters h)]
  simp only [bind, Except.bind, Dialect.ofName?_name]

theorem readNothing_of_spells {cs c₁ rest : List Char} (hb : Blanks cs c₁)
    (h : Spells .null c₁ rest) : readNothing cs = .ok rest := by
  have hs := hb.eq_skipSpace h.begins.1
  cases h with
  | null =>
    unfold readNothing
    rw [← hs]
    rfl

theorem readDialectObject_of_items {d : Dialect} {cs rest : List Char}
    (h : Items (Member Spells) [(units d.name.toList, .null)] cs ('\x7d' :: rest)) :
    readDialectObject cs = .ok (d, rest) := by
  cases h with
  | some hb hm hs =>
    cases hm with
    | mk hk hb₁ hb₂ hv =>
      cases hs with
      | none hb₃ =>
        unfold readDialectObject
        rw [← hb.eq_skipSpace (solid_cons rfl)]
        show (readDialectName _ >>= _) = _
        rw [readDialectName_of_characters hk]
        show (lift (readColon _) >>= _) = _
        rw [lift_ok_iff.mpr (readColon_of_blanks hb₁)]
        show (readNothing _ >>= _) = _
        rw [readNothing_of_spells hb₂ hv]
        dsimp only [ok_bind]
        rw [← hb₃.eq_skipSpace (solid_cons rfl)]
        rfl

theorem readDialect_of_name {d : Dialect} {cs c₁ rest : List Char} (hb : Blanks cs c₁)
    (h : Spells (.string (units d.name.toList)) c₁ rest) : readDialect cs = .ok (d, rest) := by
  have hs := hb.eq_skipSpace h.begins.1
  cases h with
  | string h =>
    unfold readDialect
    rw [← hs]
    exact readDialectName_of_characters h

theorem readDialect_of_variant {d : Dialect} {cs c₁ rest : List Char} (hb : Blanks cs c₁)
    (h : Spells (variant d) c₁ rest) : readDialect cs = .ok (d, rest) := by
  have hs := hb.eq_skipSpace h.begins.1
  cases h with
  | object h =>
    unfold readDialect
    rw [← hs]
    exact readDialectObject_of_items h

theorem readField_of_says {s : Settings} {f : Field} {cs c₁ rest : List Char} (hb : Blanks cs c₁)
    (h : Says s f c₁ rest) (hr : endsNumeral rest = true) (k : Known) :
    readField k f cs = .ok (k.learn s f, rest) := by
  cases h with
  | version h hx =>
    rw [readField, readNatural_of_spells _ hb h hx s.version.toNat_lt hr]
    show Except.ok ({ k with version := some (UInt32.ofNat s.version.toNat) }, rest) = _
    rw [UInt32.ofNat_toNat]
    rfl
  | dialect h =>
    rw [readField, readDialect_of_name hb h]
    rfl
  | variant h =>
    rw [readField, readDialect_of_variant hb h]
    rfl
  | timeZone h =>
    rw [readField, readString_of_spells hb h]
    rfl
  | maxDepth h hx =>
    rw [readField, readNatural_of_spells _ hb h hx s.maxDepth.toNat_lt hr]
    show Except.ok ({ k with maxDepth := some (UInt64.ofNat s.maxDepth.toNat) }, rest) = _
    rw [UInt64.ofNat_toNat]
    rfl

/-! ## one member -/

/-- the name of a member as the key of a document -/
def Field.key (f : Field) : List Nat := units f.name.toList

theorem ofName?_eq_some_iff {key : String} {f : Field} :
    Field.ofName? key = some f ↔ f.key = units key.toList := by
  constructor
  · intro h
    have hname : f.name = key := by simpa using List.find?_some h
    rw [Field.key, hname]
  · intro h
    rw [← String.toList_inj.mp (units_inj h), Field.ofName?_name]

theorem ofName?_eq_none_iff {key : String} :
    Field.ofName? key = none ↔ ∀ f : Field, f.key ≠ units key.toList := by
  rw [Option.eq_none_iff_forall_ne_some]
  exact forall_congr' fun f => not_congr ofName?_eq_some_iff

theorem key_inj {f g : Field} (h : f.key = g.key) : f = g :=
  Option.some.inj ((ofName?_eq_some_iff.mpr h).symm.trans (Field.ofName?_name g))

/-- what a member, a key and the characters of a value, does to what is known: a member of a foreign
key is passed over, and no other one comes twice -/
inductive Step (k : Known) : List Nat × List Char → Known → Prop where
  | foreign {key : String} {ws : List Char} (hkey : ∀ f : Field, f.key ≠ units key.toList) :
      Step k (units key.toList, ws) k
  | field {f : Field} {s : Settings} {ws : List Char} (hk : k.has f = false) (hs : Says s f ws []) :
      Step k (f.key, ws) (k.learn s f)

theorem step_of_readMemberValue {k k' : Known} {key : String} {cs rest : List Char}
    (h : readMemberValue k key cs = .ok (k', rest)) : ∃ ws c₁ c₂, Blanks cs (':' :: c₁) ∧
      Blanks c₁ c₂ ∧ Piece ws c₂ rest ∧ Step k (units key.toList, ws) k' := by
  unfold readMemberValue at h
  split at h
  · next hkey =>
    obtain ⟨c₁, hcolon, h⟩ := bind_ok_iff.mp h
    obtain ⟨⟨u, c₂⟩, hskip, h⟩ := bind_ok_iff.mp h
    cases h
    obtain ⟨v, c₃, hb, hv⟩ := exists_spells_of_skipValue (lift_ok_iff.mp hskip)
    obtain ⟨ws, hws⟩ := hv.exists_piece
    exact ⟨ws, c₁, c₃, blanks_of_readColon (lift_ok_iff.mp hcolon), hb, hws,
      .foreign (ofName?_eq_none_iff.mp hkey)⟩
  · next f hkey =>
    split at h
    · cases h
    · next hk =>
      obtain ⟨c₁, hcolon, h⟩ := bind_ok_iff.mp h
      obtain ⟨s, ⟨c₂, hb, hs⟩, rfl⟩ := says_of_readField h
      obtain ⟨ws, rfl, hmoves⟩ := hs.moves
      have hws : Says s f ws [] := by simpa using hmoves []
      refine ⟨ws, c₁, _, blanks_of_readColon (lift_ok_iff.mp hcolon), hb, ⟨rfl, hws.exists_spells⟩, ?_⟩
      rw [← ofName?_eq_some_iff.mp hkey]
      exact .field (Bool.eq_false_iff.mpr hk) hws

theorem readMemberValue_of_step {k k' : Known} {key : String} {ws cs c₁ c₂ rest : List Char}
    (hcolon : Blanks cs (':' :: c₁)) (hb : Blanks c₁ c₂) (hws : Piece ws c₂ rest)
    (h : Step k (units key.toList, ws) k') (hr : endsNumeral rest = true) :
    readMemberValue k key cs = .ok (k', rest) := by
  unfold readMemberValue
  generalize hm : (units key.toList, ws) = m at h
  cases h with
  | @foreign key' _ hkey =>
    obtain ⟨hunits, rfl⟩ := Prod.mk.inj hm
    obtain ⟨v, hv⟩ := hws.exists_spells
    rw [← hunits] at hkey
    rw [ofName?_eq_none_iff.mpr hkey]
    show (lift (readColon cs) >>= _) = _
    rw [lift_ok_iff.mpr (readColon_of_blanks hcolon)]
    show (lift (skipValue c₁) >>= _) = _
    rw [lift_ok_iff.mpr (skipValue_of_spells hb hv hr)]
    rfl
  | @field f s _ hk hs =>
    obtain ⟨hunits, rfl⟩ := Prod.mk.inj hm
    obtain ⟨us, hus, hmoves⟩ := hs.moves
    rw [List.append_nil] at hus
    obtain rfl := hus
    rw [ofName?_eq_some_iff.mpr hunits.symm]
    show (if k.has f = true then _ else _) = _
    rw [hk, if_neg Bool.false_ne_true]
    show (lift (readColon cs) >>= _) = _
    rw [lift_ok_iff.mpr (readColon_of_blanks hcolon)]
    exact readField_of_says hb (hws.1 ▸ hmoves rest) hr k

/-! ## members one after the other -/

/-- members in turn, from what is known before them to what is known behind them -/
inductive Chain : Known → List (List Nat × List Char) → Known → Prop where
  | nil (k : Known) : Chain k [] k
  | cons {k k₁ k' : Known} {m : List Nat × List Char} {ms : List (List Nat × List Char)}
      (h : Step k m k₁) (hs : Chain k₁ ms k') : Chain k (m :: ms) k'

theorem Step.count {k k' : Known} {m : List Nat × List Char} (h : Step k m k') (f : Field) :
    [m.1].count f.key + (k.has f).toNat = (k'.has f).toNat := by
  cases h with
  | foreign hkey =>
    rw [List.count_singleton, if_neg (by simpa using Ne.symm (hkey f)), Nat.zero_add]
  | @field g s ws hk hs =>
    rw [Known.has_learn, List.count_singleton]
    by_cases hg : g = f
    · subst hg
      simp [hk]
    · have hkey : g.key ≠ f.key := fun h => hg (key_inj h)
      simp [hg, hkey]

/-- **A member is known at the end if it was known before or comes, and these do not meet**: it comes
once at most. -/
theorem Chain.count {k k' : Known} {ms : List (List Nat × List Char)} (h : Chain k ms k')
    (f : Field) : (ms.map Prod.fst).count f.key + (k.has f).toNat = (k'.has f).toNat := by
  induction h with
  | nil k => rw [List.map_nil, List.count_nil, Nat.zero_add]
  | @cons k k₁ k' m ms h _ ih =>
    have hstep := h.count f
    have hcons : ((m :: ms).map Prod.fst).count f.key =
        [m.1].count f.key + (ms.map Prod.fst).count f.key := by
      rw [List.map_cons, ← List.singleton_append, List.count_append]
    omega

theorem Chain.mem_keys {k k' : Known} {ms : List (List Nat × List Char)} {f : Field}
    (h : Chain k ms k') (hf : k'.has f = true) (hk : k.has f = false) :
    f.key ∈ ms.map Prod.fst := by
  have hcount := h.count f
  rw [hf, hk] at hcount
  refine List.count_pos_iff.mp ?_
  rw [Bool.toNat_false, Bool.toNat_true] at hcount
  omega

/-- members are read one after the other, and the closing bracket is left -/
theorem chain_of_readMembers {bound cs rest : List Char} {k k' : Known}
    (h : readMembers bound k cs = .ok (k', rest)) : ∃ m ms rest', rest = '\x7d' :: rest' ∧
      Items (Member Piece) (m :: ms) cs rest ∧ Chain k (m :: ms) k' := by
  induction bound generalizing k cs with
  | nil => cases h
  | cons _ bound ih =>
    unfold readMembers at h
    split at h
    · next c₀ heq =>
      cases heq
      obtain ⟨⟨key, c₁⟩, hkey, h⟩ := bind_ok_iff.mp h
      obtain ⟨⟨k₁, c₂⟩, hvalue, h⟩ := bind_ok_iff.mp h
      obtain ⟨ws, c₃, c₄, hcolon, hb, hws, hstep⟩ := step_of_readMemberValue hvalue
      have hmember : Member Piece (units key.toList, ws) ('"' :: c₀) c₂ :=
        .mk (characters_of_readQuoted (lift_ok_iff.mp hkey)) hcolon hb hws
      dsimp only at h
      split at h
      · cases h
      · next c c₅ hs =>
        have hb₁ := blanks_of_skipSpace hs
        split_ifs at h with hclose hcomma
        · cases h
          exact ⟨_, [], c₅, hclose ▸ rfl, .some (.none _) hmember (.none hb₁), .cons hstep (.nil _)⟩
        · split at h
          · cases h
          · next d c₆ hs' =>
            split at h
            · cases h
            · obtain ⟨m, ms, rest', hrest, hms, hchain⟩ := ih h
              have hms' := hms.blanks (blanks_of_skipSpace hs')
              exact ⟨_, m :: ms, rest', hrest,
                .some (.none _) hmember (hms'.further (hcomma ▸ hb₁)), .cons hstep hchain⟩
    · cases h

theorem Step.exists_key {k k' : Known} {m : List Nat × List Char} (h : Step k m k') :
    ∃ key : String, m.1 = units key.toList := by
  cases h with
  | foreign => exact ⟨_, rfl⟩
  | @field f => exact ⟨f.name, rfl⟩

theorem exists_read_of_step {k k' : Known} {m : List Nat × List Char} {cs rest : List Char}
    (hm : Member Piece m cs rest) (h : Step k m k') (hr : endsNumeral rest = true) :
    ∃ c₁ key c₂, cs = '"' :: c₁ ∧ lift (readQuoted c₁) = .ok (key, c₂) ∧
      readMemberValue k key c₂ = .ok (k', rest) := by
  obtain ⟨key, hkey⟩ := h.exists_key
  cases hm with
  | mk hk hb hb' hv =>
    obtain rfl : _ = units key.toList := hkey
    exact ⟨_, key, _, rfl, lift_ok_iff.mpr (readQuoted_of_characters hk),
      readMemberValue_of_step hb hb' hv h hr⟩

section

variable {k k₁ : Known} {key : String} {c₁ c₂ c₃ : List Char}

theorem readMembers_last (hkey : lift (readQuoted c₁) = .ok (key, c₂))
    (hvalue : readMemberValue k key c₂ = .ok (k₁, c₃)) {rest : List Char}
    (hb : Blanks c₃ ('\x7d' :: rest)) (b : Char) (bound : List Char) :
    readMembers (b :: bound) k ('"' :: c₁) = .ok (k₁, '\x7d' :: rest) := by
  rw [readMembers, hkey]
  show (readMemberValue k key c₂ >>= _) = _
  rw [hvalue]
  dsimp only [ok_bind]
  rw [← hb.eq_skipSpace (solid_cons rfl)]
  rfl

theorem readMembers_more (hkey : lift (readQuoted c₁) = .ok (key, c₂))
    (hvalue : readMemberValue k key c₂ = .ok (k₁, c₃)) {c₄ c₅ : List Char}
    (hb : Blanks c₃ (',' :: c₄)) (hb' : Blanks c₄ ('"' :: c₅)) (b : Char) (bound : List Char) :
    readMembers (b :: bound) k ('"' :: c₁) = readMembers bound k₁ ('"' :: c₅) := by
  rw [readMembers, hkey]
  show (readMemberValue k key c₂ >>= _) = _
  rw [hvalue]
  dsimp only [ok_bind]
  rw [← hb.eq_skipSpace (solid_cons rfl)]
  dsimp only
  rw [← hb'.eq_skipSpace (solid_cons rfl)]
  rfl

end

/-- a chain of members is read, and the closing bracket is left -/
theorem readMembers_of_chain {m : List Nat × List Char} {ms : List (List Nat × List Char)}
    {k k' : Known} {cs c₁ rest bound : List Char} (hm : Member Piece m cs c₁)
    (hs : Further (Member Piece) ms c₁ ('\x7d' :: rest)) (h : Chain k (m :: ms) k')
    (hbound : cs.length ≤ bound.length) : readMembers bound k cs = .ok (k', '\x7d' :: rest) := by
  have hends := hs.endsNumeral rfl
  have hshorter := (hm.imp fun _ _ _ => Piece.moves).shorter
  generalize hrest : '\x7d' :: rest = r at hs
  induction hs generalizing m k cs bound with
  | none hb =>
    subst hrest
    cases h with
    | cons hstep hchain =>
      cases hchain
      obtain ⟨c₂, key, c₃, rfl, hkey, hvalue⟩ := exists_read_of_step hm hstep hends
      cases bound with
      | nil => cases hbound
      | cons b bound => exact readMembers_last hkey hvalue hb b bound
  | @more m' ms c₁ c₄ c₅ c₆ _ hb hb' hm' hs ih =>
    subst hrest
    cases h with
    | cons hstep hchain =>
      obtain ⟨c₂, key, c₃, rfl, hkey, hvalue⟩ := exists_read_of_step hm hstep hends
      cases bound with
      | nil => cases hbound
      | cons b bound =>
        have hlength : c₅.length ≤ bound.length := by
          have hcomma := hb.moves.length_le
          have hblanks := hb'.moves.length_le
          simp only [List.length_cons] at hcomma hbound hshorter
          omega
        have hshorter' := (hm'.imp fun _ _ _ => Piece.moves).shorter
        have hnext := ih hm' hchain hlength (hs.endsNumeral rfl) hshorter' rfl
        obtain ⟨c₇, rfl⟩ := hm'.exists_cons
        rw [readMembers_more hkey hvalue hb hb' b bound, hnext]

/-! ## whole texts -/

theorem has_version_of_settings? {k : Known} {s : Settings} (h : k.settings? = some s) :
    k.has .version = true := by
  obtain ⟨n, hn, -⟩ := Option.map_eq_some_iff.mp h
  rw [Known.has, hn, Option.isSome_some]

theorem exists_chain_of_readObject {cs rest : List Char} {s : Settings}
    (h : readObject cs = .ok (s, rest)) : ∃ ms k, Items (Member Piece) ms cs ('\x7d' :: rest) ∧
      Chain {} ms k ∧ k.settings? = some s := by
  unfold readObject at h
  split at h
  · cases h
  · next c c₁ hs =>
    split at h
    · cases h
    · obtain ⟨⟨k, c₂⟩, hmembers, h⟩ := bind_ok_iff.mp h
      obtain ⟨m, ms, c₃, rfl, hms, hchain⟩ := chain_of_readMembers hmembers
      dsimp only at h
      split at h
      · next s' hk =>
        cases h
        exact ⟨m :: ms, k, hms.blanks (blanks_of_skipSpace hs), hchain, hk⟩
      · cases h

theorem readObject_of_chain {ms : List (List Nat × List Char)} {k : Known} {s : Settings}
    {cs rest : List Char} (hms : Items (Member Piece) ms cs ('\x7d' :: rest)) (h : Chain {} ms k)
    (hk : k.settings? = some s) : readObject cs = .ok (s, rest) := by
  cases hms with
  | none =>
    cases h
    cases hk
  | some hb hm hs =>
    have hread := readMembers_of_chain hm hs h (Nat.le_refl _)
    obtain ⟨c₂, rfl⟩ := hm.exists_cons
    unfold readObject
    rw [← hb.eq_skipSpace (solid_cons rfl)]
    show (readMembers ('"' :: c₂) {} ('"' :: c₂) >>= _) = _
    rw [hread]
    simp only [bind, Except.bind, hk]
    rfl

/-- **An object text is read as the settings that its members make**, one after the other. -/
theorem read_ok_iff {ms : List (List Nat × List Char)} {text : String} {s : Settings}
    (h : IsObject Piece ms text.toList) :
    read text = .ok s ↔ ∃ k, Chain {} ms k ∧ k.settings? = some s := by
  obtain ⟨c₁, rest, hb, hms, hrest⟩ := h
  have hs := hb.eq_skipSpace (solid_cons rfl)
  rw [read, mapError_ok_iff]
  unfold readDocument readSettings
  rw [← hs]
  show (readObject c₁ >>= _) = _ ↔ _
  constructor
  · intro h
    obtain ⟨⟨s', rest'⟩, hobject, h⟩ := bind_ok_iff.mp h
    obtain ⟨_, hend, h⟩ := bind_ok_iff.mp h
    cases h
    obtain ⟨ms', k, hms', hchain, hk⟩ := exists_chain_of_readObject hobject
    obtain rfl : ms = ms' := IsObject.unique ⟨c₁, rest, .none _, hms, hrest⟩
      ⟨c₁, rest', .none _, hms', blanks_of_readEnd (lift_ok_iff.mp hend)⟩
    exact ⟨k, hchain, hk⟩
  · rintro ⟨k, hchain, hk⟩
    rw [readObject_of_chain hms hchain hk]
    show (lift (readEnd rest) >>= _) = _
    rw [lift_ok_iff.mpr (readEnd_of_blanks hrest)]
    rfl

end WhereClause.Settings
