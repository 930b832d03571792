import BlockMarkup.Proofs.Markup.StartTag
import BlockMarkup.Proofs.Text.Signs

/-! # Raw text

The text of a script or a style sheet goes up to the first end tag of its name, in whatever case
(`Token.scans_raw`). A sign is equal to nothing but itself when case does not matter
(`Regex.eq_of_contains_foldCase`), so no end tag is found in text without `</`.
-/

namespace BlockMarkup

namespace Regex

open Text (IsSign)

variable {a c : Char}

/-- No character but a sign has the sign as its lower case. -/
theorem eq_of_lowerChar (ha : IsSign a) (h : Text.lowerChar c = a) : c = a := by
  have hruns : ∀ r ∈ Text.lowerRuns, 65 ≤ r.target := by decide +kernel
  rw [Text.lowerChar] at h
  split at h
  · exact Text.eq_of_toLower (Or.inl ha.2) h
  · exact Text.eq_of_mapByRuns ha.1 (fun r hr hle => absurd (hruns r hr) (by have := ha.2; omega)) h

/-- In ASCII, only capital letters have another character as their lower case. -/
theorem eq_of_mem_unlowered {n m : Nat} (h : m ∈ unlowered n) (hm : m < 128) :
    97 ≤ n ∧ n ≤ 122 ∧ m = n - 32 := by
  have hruns : ∀ r ∈ Text.lowerRuns, 128 ≤ r.first := by decide +kernel
  rw [unlowered, List.mem_append] at h
  rcases h with h | h
  · split at h
    · rename_i hn
      exact ⟨hn.1, hn.2, List.mem_singleton.mp h⟩
    · cases h
  · rw [preimages, List.mem_filterMap] at h
    obtain ⟨r, hr, h⟩ := h
    have hfirst := hruns r hr
    split at h
    · rw [Option.some.injEq] at h
      omega
    · cases h

theorem sign_not_unlowered (ha : IsSign a) (n : Nat) : a.toNat ∉ unlowered n := by
  intro h
  have hlt := ha.2
  have hletter := eq_of_mem_unlowered h (by omega)
  omega

theorem sign_not_companion (ha : IsSign a) : a.toNat ∉ (Text.foldCompanionsOf c).map Char.toNat := by
  have hrows : ∀ row ∈ Text.foldCompanions, ∀ n ∈ row.tail, 65 ≤ (Char.ofNat n).toNat := by
    decide +kernel
  rw [Text.foldCompanionsOf]
  split
  · rename_i row hrow
    rw [List.map_map, List.mem_map]
    rintro ⟨n, hn, heq⟩
    have hle := hrows row (List.mem_of_find?_eq_some hrow) n hn
    have hlt := ha.2
    rw [Function.comp_apply] at heq
    omega
  · simp

theorem mem_variants_of_contains_foldCase (h : (CharSet.single a).foldCase.contains c = true) :
    a.toNat ∈ CaseRule.fullFold.variants c := by
  simp only [CharSet.single, CharSet.foldCase, CharSet.contains, SetItem.covers, List.any_cons,
    List.any_nil, Bool.or_false, Bool.bne_false, List.any_eq_true, Bool.and_eq_true,
    decide_eq_true_eq] at h
  obtain ⟨n, hn, hge, hle⟩ := h
  rwa [Nat.le_antisymm hle hge] at hn

/-- No other character counts as equal to a sign. -/
theorem eq_of_contains_foldCase (ha : IsSign a)
    (h : (CharSet.single a).foldCase.contains c = true) : c = a := by
  have hmem := mem_variants_of_contains_foldCase h
  simp only [CaseRule.variants, List.mem_append, List.mem_cons, List.mem_flatMap] at hmem
  rcases hmem with (hmem | hmem) | ⟨n, _, hmem⟩
  · exact eq_of_lowerChar ha (Char.ext (UInt32.toNat_inj.1 hmem.symm))
  · exact absurd hmem (sign_not_companion ha)
  · exact absurd hmem (sign_not_unlowered ha n)

end Regex

namespace Markup

open Regex (CharSet Cursor Eats Refuses)
open Regex.Cursor (spot)

theorem eats_textAnyCase (t : String) {before rest : List Char} {groups : List (Nat × Regex.Capture)}
    (h : t.toList.all (fun c => (CharSet.single c).foldCase.contains c) = true) :
    Eats (.textAnyCase t) t.toList before rest groups groups := by
  rw [Regex.textAnyCase]
  generalize t.toList = cs at h
  induction cs generalizing before with
  | nil => exact Regex.eats_empty
  | cons c cs ih =>
    rw [List.all_cons, Bool.and_eq_true] at h
    have hfirst : Eats (.one (CharSet.single c).foldCase) [c] before (cs ++ rest) groups groups :=
      Regex.eats_one h.1
    exact hfirst.seq (ih h.2)

/-- The end of raw text begins with a mark. -/
theorem refuses_rawEnd {name : String} {s : Cursor} (h : ¬ ['<', '/'] <+: s.after) :
    Refuses (Regex.run (Pattern.rawEnd name)) s := by
  have hmark : Refuses (Regex.run (.textAnyCase "</")) s := by
    refine Regex.refuses_of_yields
      ((Regex.yields_one _).seq ((Regex.yields_one _).seq Regex.yields_empty)) ?_
    rintro u ⟨v, ⟨c, hc, hafter, -⟩, w, ⟨d, hd, hafter', -⟩, rfl⟩
    cases Regex.eq_of_contains_foldCase (by decide) hc
    cases Regex.eq_of_contains_foldCase (by decide) hd
    exact absurd ⟨u.after, by rw [hafter, hafter']; rfl⟩ h
  exact Refuses.seq (Refuses.seq (Refuses.seq (Refuses.seq hmark)))

namespace Token

variable {name s before rest : List Char} {groups : List (Nat × Regex.Capture)}

theorem rawName_cases (hraw : String.ofList name ∈ rawNames) :
    name = ['s', 'c', 'r', 'i', 'p', 't'] ∨ name = ['s', 't', 'y', 'l', 'e'] := by
  simpa [rawNames, String.ext_iff] using hraw

theorem nameable_of_mem_rawNames (hraw : String.ofList name ∈ rawNames) : Nameable name := by
  rcases rawName_cases hraw with rfl | rfl <;> decide

theorem eats_rawEnd (hraw : String.ofList name ∈ rawNames) :
    Eats (Pattern.rawEnd (String.ofList name)) ('<' :: '/' :: (name ++ ['>'])) before rest
      [] [] := by
  have hfold : name.all (fun c => (CharSet.single c).foldCase.contains c) = true := by
    rcases rawName_cases hraw with rfl | rfl <;> decide
  have hmark : Eats (.textAnyCase "</") ['<', '/'] before
      (name ++ (['>'] ++ rest)) [] [] :=
    eats_textAnyCase "</" (by decide)
  have hblank : Eats Regex.blanks [] (['<', '/'].reverse ++ before)
      (name ++ (['>'] ++ rest)) [] [] := by
    refine Token.eats_blanks_nil fun c hc => ?_
    rcases rawName_cases hraw with rfl | rfl <;> cases hc <;> decide
  have hname : Eats (.textAnyCase (String.ofList name)) name (['<', '/'].reverse ++ before)
      (['>'] ++ rest) [] [] := by
    have heats : Eats (.textAnyCase (String.ofList name)) (String.ofList name).toList
        (['<', '/'].reverse ++ before) (['>'] ++ rest) [] [] :=
      eats_textAnyCase _ (by rwa [String.toList_ofList])
    rwa [String.toList_ofList] at heats
  have hmatch : Eats (Pattern.rawEnd (String.ofList name))
      ((((['<', '/'] ++ []) ++ name) ++ []) ++ ['>']) before rest [] [] :=
    (((hmark.seq_nil hblank).seq hname).seq_nil
      (Token.eats_blanks_nil fun c hc => by cases hc; rfl)).seq Token.eats_char
  simpa only [List.append_nil, List.append_assoc, List.cons_append, List.nil_append] using hmatch

theorem readRaw_eq (hraw : String.ofList name ∈ rawNames) (hs : ¬ ['<', '/'] <:+: s)
    (before rest : List Char) (groups : List (Nat × Regex.Capture)) :
    readRaw (String.ofList name)
        (spot before (s ++ (('<' :: '/' :: (name ++ ['>'])) ++ rest)) groups) =
      some ((if s.isEmpty then [] else [.text s]) ++ [.endTag (String.ofList name)],
        spot (('<' :: '/' :: (name ++ ['>'])).reverse ++ (s.reverse ++ before)) rest
          [(1, .of name ('>' :: rest))], none) := by
  have hsilent : Regex.Silent (Pattern.rawEnd (String.ofList name)) before s
      (('<' :: '/' :: (name ++ ['>'])) ++ rest) := by
    intro p c q hpos
    have hmark : ¬ ['<', '/'] <+: c :: (q ++ (('<' :: '/' :: (name ++ ['>'])) ++ rest)) := by
      rintro ⟨tail, htail⟩
      -- the mark would stand in the text
      cases q with
      | nil => cases htail
      | cons d q =>
        cases htail
        exact hs ⟨p, q, by rw [hpos, List.append_assoc]; rfl⟩
    have hrefuses : Refuses (Regex.run (Pattern.rawEnd (String.ofList name)))
        (spot (p.reverse ++ before) (c :: (q ++ (('<' :: '/' :: (name ++ ['>'])) ++ rest))) []) :=
      refuses_rawEnd hmark
    exact hrefuses some
  have hsearch := search?_eq hsilent (eats_rawEnd hraw) groups
  have hend := (eats_endTag (nameable_of_mem_rawNames hraw) (s.reverse ++ before) rest).matchAt []
  have hlead := Cursor.textTo_spot s before (('<' :: '/' :: (name ++ ['>'])) ++ rest) groups []
  rw [readRaw, hsearch]
  dsimp only [Option.bind_eq_bind, Option.bind_some, Option.pure_def]
  rw [hlead, hend]
  dsimp only
  rw [Regex.Match.group_eq (List.lookup_cons_self ..), (nameable_of_mem_rawNames hraw).lower,
    if_pos rfl]

/-- The tokens of raw text. -/
def rawTokens (s : List Char) : List Token := if s.isEmpty then [] else [.text s]

/-- An element with raw text is cut in two steps. -/
theorem scans_raw {as : Attributes} (hraw : String.ofList name ∈ rawNames)
    (has : WritableAttributes as) (hs : ¬ ['<', '/'] <:+: s) (rest : List Char) :
    Scans (('<' :: (name ++ (attributesText as ++ ['>']))) ++ (s ++ '<' :: '/' :: (name ++ ['>'])))
      ([.startTag (String.ofList name) (readBack as)] ++
        (rawTokens s ++ [.endTag (String.ofList name)])) rest := by
  intro before groups
  have hclose : ClosesTag ['>'] := Or.inl rfl
  obtain ⟨groups', hread⟩ := exists_readTag (nameable_of_mem_rawNames hraw) has hclose before
    (s ++ (('<' :: '/' :: (name ++ ['>'])) ++ rest)) groups
  have hend := readRaw_eq hraw hs ((name ++ (attributesText as ++ ['>'])).reverse ++ '<' :: before)
    rest groups'
  refine ⟨2, [(1, .of name ('>' :: rest))], ?_, fun fuel out => ?_⟩
  · simp only [List.length_append, List.length_cons]
    omega
  have hafter : rawAfter [tagToken ['>'] (String.ofList name) (readBack as)] =
      some (String.ofList name) := by
    rw [tagToken, if_pos rfl, rawAfter, if_pos (by simpa using hraw)]
  have htext : ('<' :: (name ++ (attributesText as ++ ['>']))) ++
      (s ++ '<' :: '/' :: (name ++ ['>'])) ++ rest =
        '<' :: ((name ++ (attributesText as ++ ['>'])) ++
          (s ++ (('<' :: '/' :: (name ++ ['>'])) ++ rest))) := by
    simp only [List.append_assoc, List.cons_append]
  have hfuel : 2 + fuel = fuel + 1 + 1 := by omega
  rw [htext, hfuel, scanFrom_tag rfl hread, hafter, scanFrom_raw hend]
  simp only [rawTokens, List.reverse_append, List.reverse_cons, List.append_assoc, List.cons_append,
    List.nil_append, List.reverse_nil, tagToken, if_pos]

end Token

end Markup

end BlockMarkup
