import WhereClause.Proofs.Json.Soundness
import WhereClause.Proofs.Json.Uniqueness

/-!
# Values by their characters

What a value is in a text, apart from any document: the characters that it takes. Every object text is
cut in one way into keys and such pieces.

* `Piece`                 a value by its characters;
* `IsText.exists_pieces`, `IsObject.unique`  an object text has its members, and in one way;
* `isObject_of_bracketed`  the members computed.
-/

set_option autoImplicit false

namespace WhereClause.Json

open WhereClause.Text

/-! ## pieces -/

/-- a text of one value with nothing around it -/
def IsValueText (ws : List Char) : Prop := ∃ v, Spells v ws []

/-- a value at the front of a text by the characters that it takes, whatever document it is -/
def Piece (ws cs rest : List Char) : Prop := cs = ws ++ rest ∧ IsValueText ws

theorem Piece.moves {ws cs rest : List Char} (h : Piece ws cs rest) : Moves Piece ws cs rest :=
  ⟨ws, h.1, fun _ => ⟨rfl, h.2⟩⟩

theorem Piece.exists_spells {ws cs rest : List Char} (h : Piece ws cs rest) :
    ∃ v, Spells v cs rest := by
  obtain ⟨rfl, v, hv⟩ := h
  obtain ⟨us, hus, hv⟩ := hv.moves
  rw [List.append_nil] at hus
  exact ⟨v, hus ▸ hv rest⟩

theorem Spells.exists_piece {v : Document} {cs rest : List Char} (h : Spells v cs rest) :
    ∃ ws, Piece ws cs rest := by
  obtain ⟨ws, rfl, hv⟩ := h.moves
  exact ⟨ws, rfl, v, by simpa using hv []⟩

theorem Piece.solid {ws cs rest : List Char} (h : Piece ws cs rest) : Solid cs := by
  obtain ⟨v, hv⟩ := h.exists_spells
  exact hv.begins.1

theorem Piece.sole {ws cs rest : List Char} (h : Piece ws cs rest) : Sole Piece ws cs rest := by
  refine ⟨h, fun hr ws' rest' h' hr' => ?_⟩
  obtain ⟨v, hv⟩ := h.exists_spells
  obtain ⟨v', hv'⟩ := h'.exists_spells
  obtain ⟨-, rfl⟩ := hv.sole.2 hr v' rest' hv' hr'
  exact ⟨List.append_cancel_right (h.1.symm.trans h'.1), rfl⟩

/-! ## members -/

/-- every object text has such members -/
theorem IsText.exists_pieces {ds : List (List Nat × Document)} {cs : List Char}
    (h : IsText (.object ds) cs) : ∃ ms, IsObject Piece ms cs := by
  obtain ⟨rest, ⟨c₁, hb, hv⟩, hrest⟩ := h
  cases hv with
  | object hds =>
    have hpieces : Items (fun _ cs rest => ∃ m, Member Piece m cs rest) ds _ _ :=
      hds.imp fun m cs rest hm => by
        cases hm with
        | @mk key _ _ _ _ _ _ hk hb hb' hv =>
          obtain ⟨ws, hws⟩ := hv.exists_piece
          exact ⟨(key, ws), .mk hk hb hb' hws⟩
    obtain ⟨ms, hms⟩ := hpieces.exists_of
    exact ⟨ms, _, rest, hb, hms, hrest⟩

/-- **An object text has its members in one way**, each a key and the characters of a value. -/
theorem IsObject.unique {ms ms' : List (List Nat × List Char)} {cs : List Char}
    (h : IsObject Piece ms cs) (h' : IsObject Piece ms' cs) : ms = ms' := by
  obtain ⟨c₁, rest, hb, hms, -⟩ := h
  obtain ⟨c₁', rest', hb', hms', -⟩ := h'
  obtain ⟨-, rfl⟩ := List.cons.inj (hb.unique hb' (solid_cons rfl) (solid_cons rfl))
  have hsole : Items (Sole (Member Piece)) ms c₁ ('\x7d' :: rest) :=
    hms.imp fun _ _ _ hm => Member.sole Piece.solid (hm.imp fun _ _ _ => Piece.sole)
  exact (hsole.unique encloses_curly hms').1

/-! ## members computed -/

/-- the characters of the value at the front of a text -/
def takeValue : Reader Fault (List Char) := fun cs => do
  let (_, rest) ← skipValue cs
  .ok ((skipSpace cs).take ((skipSpace cs).length - rest.length), rest)

theorem piece_of_takeValue {ws cs rest : List Char} (h : takeValue cs = .ok (ws, rest)) :
    Behind Piece ws cs rest := by
  obtain ⟨⟨_, rest'⟩, hskip, h⟩ := bind_ok_iff.mp h
  cases h
  obtain ⟨v, c₁, hb, hv⟩ := exists_spells_of_skipValue hskip
  rw [← hb.eq_skipSpace hv.begins.1]
  obtain ⟨us, rfl, hmoves⟩ := hv.moves
  refine ⟨_, hb, by simp, v, ?_⟩
  simpa using hmoves []

theorem isObject_of_bracketed {ms : List (String × List Char)} {cs : List Char}
    (hopen : (skipSpace cs).head? = some '\x7b')
    (h : (bracketed curlyBrackets (readMember readQuoted takeValue) (skipSpace cs).tail).toOption =
      some (ms, [])) : IsObject Piece (ms.map inUnits) cs := by
  obtain ⟨c₁, hs⟩ := List.head?_eq_some_iff.mp hopen
  rw [hs] at h
  exact ⟨c₁, [], blanks_of_skipSpace hs,
    members_of_bracketed (fun _ _ _ => piece_of_takeValue) (ok_of_toOption h), .none []⟩

end WhereClause.Json
