import WhereClause.Json.Reader
import WhereClause.Proofs.Json.Soundness

/-!
# Values and their texts

A text is read as a value exactly where the value is written in it (`read_ok_iff`). Other than a
document, a value has only strings that characters make and only numbers that have room, and it has
each key of an object once.

* `Written`                 how a value is written at the front of a text, with at most so many arrays
  and objects inside one another;
* `Written.exists_spells`   what is written for a value is a document;
* `follows_readValue`       written values are read;
* `written_of_readValue`    values that are read are written;
* `read_of_isObject`        an object is read by its members as they are written.
-/

set_option autoImplicit false

namespace WhereClause.Json

open WhereClause.Text WhereClause.Number WhereClause.Sql

/-! ## how values are written -/

/-- a value whose elements and members are written as `nested` has it; without it there is no level
left -/
inductive WrittenWith (nested : Option (Json → List Char → List Char → Prop)) :
    Json → List Char → List Char → Prop where
  | null (rest : List Char) : WrittenWith nested .null ('n' :: 'u' :: 'l' :: 'l' :: rest) rest
  | true (rest : List Char) :
      WrittenWith nested (.boolean true) ('t' :: 'r' :: 'u' :: 'e' :: rest) rest
  | false (rest : List Char) :
      WrittenWith nested (.boolean false) ('f' :: 'a' :: 'l' :: 's' :: 'e' :: rest) rest
  | number {x : Numeral} {n : Number} {cs rest : List Char} (h : x.Spells cs rest)
      (hn : x.value [] = .ok n) : WrittenWith nested (.number n) cs rest
  | string {s : String} {cs rest : List Char} (h : Characters (units s.toList) cs rest) :
      WrittenWith nested (.string s) ('"' :: cs) rest
  | array {P : Json → List Char → List Char → Prop} {vs : List Json} {cs rest : List Char}
      (hP : nested = some P) (h : Items P vs cs (']' :: rest)) :
      WrittenWith nested (.array vs) ('[' :: cs) rest
  | object {P : Json → List Char → List Char → Prop} {ms : List (String × Json)}
      {cs rest : List Char} (hP : nested = some P)
      (h : Items (Member P) (ms.map inUnits) cs ('\x7d' :: rest)) :
      WrittenWith nested (.object (Entries.ofPairs ms)) ('\x7b' :: cs) rest

/-- how a value with at most `levels` arrays and objects inside one another is written -/
def Written : (levels : Nat) → Json → List Char → List Char → Prop
  | 0 => WrittenWith none
  | levels + 1 => WrittenWith (some (Written levels))

theorem WrittenWith.imp {nested nested' : Option (Json → List Char → List Char → Prop)}
    (hnested : ∀ P, nested = some P → ∃ Q, nested' = some Q ∧
      ∀ v cs rest, P v cs rest → Q v cs rest)
    {v : Json} {cs rest : List Char} (h : WrittenWith nested v cs rest) :
    WrittenWith nested' v cs rest := by
  cases h with
  | null => exact .null rest
  | true => exact .true rest
  | false => exact .false rest
  | number h hn => exact .number h hn
  | string h => exact .string h
  | array hP h =>
    obtain ⟨Q, hQ, himp⟩ := hnested _ hP
    exact .array hQ (h.imp himp)
  | object hP h =>
    obtain ⟨Q, hQ, himp⟩ := hnested _ hP
    exact .object hQ (h.imp fun _ _ _ => Member.imp himp)

/-- what takes few levels may have more -/
theorem Written.mono {levels levels' : Nat} (hle : levels ≤ levels') {v : Json} {cs rest : List Char}
    (h : Written levels v cs rest) : Written levels' v cs rest := by
  induction levels generalizing levels' v cs rest with
  | zero =>
    cases levels' with
    | zero => exact h
    | succ _ => exact WrittenWith.imp (fun _ hP => absurd hP (Option.some_ne_none _).symm) h
  | succ levels ih =>
    cases levels' with
    | zero => exact absurd hle (Nat.not_succ_le_zero levels)
    | succ levels' =>
      refine WrittenWith.imp (fun P hP => ?_) h
      cases hP
      exact ⟨_, rfl, fun _ _ _ => ih (Nat.le_of_succ_le_succ hle)⟩

/-! ## values are documents -/

theorem Member.exists_spells {P : Json → List Char → List Char → Prop}
    (hP : ∀ v cs rest, P v cs rest → ∃ d, Spells d cs rest) {m : List Nat × Json}
    {cs rest : List Char} (h : Member P m cs rest) : ∃ m, Member Spells m cs rest := by
  cases h with
  | @mk key _ _ _ _ _ _ hk hb hb' hv =>
    obtain ⟨d, hd⟩ := hP _ _ _ hv
    exact ⟨(key, d), .mk hk hb hb' hd⟩

theorem WrittenWith.exists_spells {nested : Option (Json → List Char → List Char → Prop)}
    (hnested : ∀ P, nested = some P → ∀ v cs rest, P v cs rest → ∃ d, Spells d cs rest) {v : Json}
    {cs rest : List Char} (h : WrittenWith nested v cs rest) : ∃ d, Spells d cs rest := by
  cases h with
  | null => exact ⟨_, .null rest⟩
  | true => exact ⟨_, .true rest⟩
  | false => exact ⟨_, .false rest⟩
  | number h => exact ⟨_, .number h⟩
  | string h => exact ⟨_, .string h⟩
  | array hP h =>
    obtain ⟨ds, hds⟩ := (h.imp (hnested _ hP)).exists_of
    exact ⟨_, .array hds⟩
  | object hP h =>
    obtain ⟨ds, hds⟩ := (h.imp fun _ _ _ => Member.exists_spells (hnested _ hP)).exists_of
    exact ⟨_, .object hds⟩

/-- **What is written for a value is a document.** -/
theorem Written.exists_spells {levels : Nat} {v : Json} {cs rest : List Char}
    (h : Written levels v cs rest) : ∃ d, Spells d cs rest := by
  induction levels generalizing v cs rest with
  | zero => exact WrittenWith.exists_spells (fun _ hP => absurd hP (Option.some_ne_none _).symm) h
  | succ levels ih =>
    refine WrittenWith.exists_spells (fun P hP v cs rest hv => ?_) h
    cases hP
    exact ih hv

/-! ## what is written is read -/

/-- what is written as `P` has it is a document, and `value` reads it behind blanks -/
structure Follows (value : Reader Fault Json) (P : Json → List Char → List Char → Prop) : Prop where
  spells : ∀ v cs rest, P v cs rest → ∃ d, Spells d cs rest
  read : ∀ {v cs c₁ rest}, Blanks cs c₁ → P v c₁ rest → endsNumeral rest = true →
    value cs = .ok (v, rest)

section

variable {value : Reader Fault Json} {P : Json → List Char → List Char → Prop}

theorem Follows.taken (h : Follows value P) {v : Json} {cs rest : List Char} (hv : P v cs rest) :
    Taken value ']' v cs rest := by
  obtain ⟨d, hd⟩ := h.spells _ _ _ hv
  exact ⟨hd.begins, hd.shorter, h.read (.none cs) hv⟩

theorem Follows.taken_member (h : Follows value P) {m : String × Json} {cs rest : List Char}
    (hm : Member P (inUnits m) cs rest) :
    Taken (readMember readQuoted value) '\x7d' m cs rest := by
  obtain ⟨d, hd⟩ := hm.exists_spells h.spells
  refine ⟨hm.begins, (hd.imp fun _ _ _ => Spells.moves).shorter, fun hr => ?_⟩
  obtain ⟨key, v⟩ := m
  cases hm with
  | mk hk hb hb' hv =>
    exact readMember_of_blanks (readQuoted_of_characters hk) hb (h.read hb' hv hr)

end

theorem follows_readValueWith {value? : Option (Reader Fault Json)}
    {nested : Option (Json → List Char → List Char → Prop)}
    (hnested : ∀ P, nested = some P → ∃ value, value? = some value ∧ Follows value P) :
    Follows (readValueWith value?) (WrittenWith nested) := by
  have hspells : ∀ v cs rest, WrittenWith nested v cs rest → ∃ d, Spells d cs rest := by
    refine fun v cs rest => WrittenWith.exists_spells fun P hP => ?_
    obtain ⟨value, -, hfollows⟩ := hnested P hP
    exact hfollows.spells
  refine ⟨hspells, fun {v cs c₁ rest} hb hv hr => ?_⟩
  obtain ⟨d, hd⟩ := hspells _ _ _ hv
  have hs := (hb.eq_skipSpace hd.begins.1).symm
  unfold readValueWith
  rw [hs]
  cases hv with
  | null => rfl
  | true => rfl
  | false => rfl
  | string h =>
    show (readQuoted _ >>= _) = _
    rw [readQuoted_of_characters h]
    rfl
  | number h hn =>
    have hread := readNumber_of_spells h hn hr
    obtain ⟨c, ds, rfl, hc⟩ := h.exists_cons
    have hne := ne_of_number hc
    show (if c = 'n' then _ else if c = 't' then _ else if c = 'f' then _ else if c = '"' then _
      else if c = '-' ∨ c.isDigit then readNumber (c :: ds) >>= _ else _) = _
    rw [if_neg (hne _ (by decide)), if_neg (hne _ (by decide)), if_neg (hne _ (by decide)),
      if_neg (hne _ (by decide)), if_pos hc, hread]
    rfl
  | array hP h =>
    obtain ⟨value, rfl, hfollows⟩ := hnested _ hP
    show (bracketed squareBrackets value _ >>= _) = _
    rw [bracketed_of_items closes_square (h.imp fun _ _ _ => hfollows.taken)]
    rfl
  | object hP h =>
    obtain ⟨value, rfl, hfollows⟩ := hnested _ hP
    have htaken := (Items.map_iff.mp h).imp fun _ _ _ => hfollows.taken_member
    show (bracketed curlyBrackets (readMember readQuoted value) _ >>= _) = _
    rw [bracketed_of_items closes_curly htaken]
    rfl

theorem follows_readValue (levels : Nat) : Follows (readValue levels) (Written levels) := by
  induction levels with
  | zero => exact follows_readValueWith fun _ hP => absurd hP (Option.some_ne_none _).symm
  | succ levels ih =>
    refine follows_readValueWith fun P hP => ?_
    cases hP
    exact ⟨_, rfl, ih⟩

/-! ## what is read is written -/

theorem written_of_readValueWith {value? : Option (Reader Fault Json)}
    {nested : Option (Json → List Char → List Char → Prop)}
    (hnested : ∀ value, value? = some value → ∃ P, nested = some P ∧
      ∀ v cs rest, value cs = .ok (v, rest) → Behind P v cs rest)
    {v : Json} {cs rest : List Char} (h : readValueWith value? cs = .ok (v, rest)) :
    Behind (WrittenWith nested) v cs rest := by
  unfold readValueWith at h
  split at h
  · cases h
  · next c c₁ hs =>
    suffices hwritten : WrittenWith nested v (c :: c₁) rest from
      ⟨_, blanks_of_skipSpace hs, hwritten⟩
    split_ifs at h with hn ht hf hquote hnumber hsquare hcurly
    · obtain ⟨c₂, hword, h⟩ := bind_ok_iff.mp h
      cases h
      rw [hn, append_of_readWord hword]
      exact .null rest
    · obtain ⟨c₂, hword, h⟩ := bind_ok_iff.mp h
      cases h
      rw [ht, append_of_readWord hword]
      exact .true rest
    · obtain ⟨c₂, hword, h⟩ := bind_ok_iff.mp h
      cases h
      rw [hf, append_of_readWord hword]
      exact .false rest
    · obtain ⟨⟨s, c₂⟩, hstring, h⟩ := bind_ok_iff.mp h
      cases h
      rw [hquote]
      exact .string (characters_of_readQuoted hstring)
    · obtain ⟨⟨n, c₂⟩, hread, h⟩ := bind_ok_iff.mp h
      cases h
      obtain ⟨x, hx, hn⟩ := exists_numeral_of_readNumber hread
      exact .number hx hn
    · cases value? with
      | none => cases h
      | some value =>
        obtain ⟨⟨vs, c₂⟩, hvs, h⟩ := bind_ok_iff.mp h
        cases h
        obtain ⟨P, hP, hread⟩ := hnested value rfl
        rw [hsquare]
        exact .array hP (items_of_bracketed hread hvs)
    · cases value? with
      | none => cases h
      | some value =>
        obtain ⟨⟨ms, c₂⟩, hms, h⟩ := bind_ok_iff.mp h
        cases h
        obtain ⟨P, hP, hread⟩ := hnested value rfl
        rw [hcurly]
        exact .object hP (members_of_bracketed hread hms)

theorem written_of_readValue {levels : Nat} {v : Json} {cs rest : List Char}
    (h : readValue levels cs = .ok (v, rest)) : Behind (Written levels) v cs rest := by
  induction levels generalizing v cs rest with
  | zero => exact written_of_readValueWith (fun _ hv => absurd hv (Option.some_ne_none _).symm) h
  | succ levels ih =>
    refine written_of_readValueWith (fun value hvalue => ?_) h
    cases hvalue
    exact ⟨_, rfl, fun _ _ _ => ih⟩

/-! ## whole texts -/

/-- **A text is read as the value that is written in it**, and as no other. -/
theorem read_ok_iff {text : String} {v : Json} : read text = .ok v ↔
    ∃ rest, Behind (Written maxLevels) v text.toList rest ∧ Blanks rest [] := by
  rw [read, mapError_ok_iff]
  constructor
  · intro h
    obtain ⟨⟨w, rest⟩, hw, h⟩ := bind_ok_iff.mp h
    obtain ⟨_, hend, h⟩ := bind_ok_iff.mp h
    cases h
    exact ⟨rest, written_of_readValue hw, blanks_of_readEnd hend⟩
  · rintro ⟨rest, ⟨c₁, hb, hv⟩, hrest⟩
    unfold readDocument
    rw [(follows_readValue maxLevels).read hb hv (hrest.endsNumeral rfl)]
    show (readEnd rest >>= _) = _
    rw [readEnd_of_blanks hrest]
    rfl

section

variable {ms : List (String × Json)}

/-- **An object is read with its members as they are written**, each key once. -/
theorem readValue_of_isObject {cs : List Char}
    (h : IsObject (Written (maxLevels - 1)) (ms.map inUnits) cs) : ∃ rest,
      readValue maxLevels cs = .ok (.object (Entries.ofPairs ms), rest) ∧ readEnd rest = .ok () := by
  obtain ⟨c₁, rest, hb, hms, hrest⟩ := h
  have hwritten : Written maxLevels (.object (Entries.ofPairs ms)) ('\x7b' :: c₁) rest :=
    WrittenWith.object rfl hms
  exact ⟨rest, (follows_readValue maxLevels).read hb hwritten (hrest.endsNumeral rfl),
    readEnd_of_blanks hrest⟩

theorem read_of_isObject {text : String}
    (h : IsObject (Written (maxLevels - 1)) (ms.map inUnits) text.toList) :
    read text = .ok (.object (Entries.ofPairs ms)) := by
  obtain ⟨c₁, rest, hb, hms, hrest⟩ := h
  exact read_ok_iff.mpr ⟨rest, ⟨_, hb, WrittenWith.object rfl hms⟩, hrest⟩

end

end WhereClause.Json
