import BlockMarkup.Proofs.Regex.Matches
import BlockMarkup.Proofs.Markup.PlainTags

/-! # Scanned tags

A tag whose name consists of small letters is found as one match and gives its mark, wherever it stands
(`gives_tag`). Text without `<` gives no marks (`gives_text`).
-/

namespace BlockMarkup.Markup

open BlockMarkup.Regex (CharSet Eats Gives Refuses)
open BlockMarkup.Regex.Cursor (spot)
open Token (eats_char)

/-- A tag; behind the name of an opening one stands the text of its attributes. -/
def tagText (closing : Bool) (name body : List Char) : List Char :=
  '<' :: ((if closing then ['/'] else []) ++ (name ++ (body ++ ['>'])))

/-- A name of small letters. -/
structure LowerName (name : List Char) : Prop where
  ne_nil : name ≠ []
  lower : ∀ c ∈ name, c.isLower = true

/-- What can stand between the name of a tag and its end: nothing, or a blank and characters that are no
angles, the last of them no slash. -/
structure TagBody (body : List Char) : Prop where
  head : ∀ c, body.head? = some c → c = ' '
  angles : '<' ∉ body ∧ '>' ∉ body
  last : ∀ c, body.getLast? = some c → c ≠ '/'

variable {closing : Bool} {before rest name body : List Char} {groups : List (Nat × Regex.Capture)}

theorem tagBody_nil : TagBody [] := ⟨by simp, by simp, by simp⟩

theorem TagBody.head_append (h : TagBody body) {c : Char}
    (hc : (body ++ '>' :: rest).head? = some c) : c = ' ' ∨ c = '>' := by
  cases body with
  | nil =>
    cases hc
    exact Or.inr rfl
  | cons d body => exact Or.inl (h.head c hc)

theorem LowerName.not_mem (h : LowerName name) {c : Char} (hc : c.isLower = false) : c ∉ name := by
  intro hmem
  rw [h.lower c hmem] at hc
  cases hc

/-- The tag of an element that is not removed is plain. -/
theorem tagged_tagText (closing : Bool) (hname : LowerName name)
    (hremoved : String.ofList name ∉ removedNames) (hbody : TagBody body) :
    Tagged (tagText closing name body) := by
  have hangle : '<' ∉ name := hname.not_mem rfl
  refine tagged_tag ?_ (by cases closing <;> simp [hangle, hbody.angles.1])
  cases closing with
  | true => exact ⟨⟨[], '/', name ++ (body ++ ['>']), rfl, by simp, by decide, by simp⟩, by simp⟩
  | false =>
    obtain ⟨d, rest, hrest⟩ : ∃ d rest, body ++ ['>'] = d :: rest :=
      List.exists_cons_of_ne_nil (by simp)
    have hfirst : (body ++ '>' :: []).head? = some d := by
      rw [hrest]
      rfl
    obtain ⟨c, cs, rfl⟩ := List.exists_cons_of_ne_nil hname.ne_nil
    refine ⟨⟨c :: cs, d, rest, by simp [hrest], hname.lower, hremoved, ?_⟩, fun hblank => ?_⟩
    · rcases hbody.head_append hfirst with rfl | rfl <;> simp
    · cases hblank
      exact hname.not_mem rfl List.mem_cons_self

/-! ## Matches -/

/-- The first character of a scanned name. -/
def scannedLetters : CharSet := (CharSet.between 'A' 'Z').or (.between 'a' 'z')

/-- The characters of a scanned name. -/
def scannedNames : CharSet := (CharSet.ofKind .word).or (.ofList [':', '-'])

theorem scannedLetters_of_isLower {c : Char} (hc : c.isLower = true) :
    scannedLetters.contains c = true := by
  have hcode := Text.isLower_iff.mp hc
  simp [scannedLetters, CharSet.or, CharSet.between, CharSet.contains, Regex.CaseRule.variants,
    Regex.SetItem.covers]
  omega

theorem scannedNames_of_isLower {c : Char} (hc : c.isLower = true) :
    scannedNames.contains c = true := by
  simp [scannedNames, CharSet.or, CharSet.ofKind, CharSet.contains, Regex.SetItem.covers,
    Regex.CharKind.holds, isWordChar_of_isLower hc]

theorem eats_scannedName (hname : LowerName name) (hbody : TagBody body) :
    Eats (.seq (.one scannedLetters) (.many scannedNames)) name before (body ++ '>' :: rest) groups
      groups := by
  obtain ⟨c, cs, rfl⟩ := List.exists_cons_of_ne_nil hname.ne_nil
  have hlower := hname.lower
  rw [List.forall_mem_cons] at hlower
  have hfirst : Eats (.one scannedLetters) [c] before (cs ++ (body ++ '>' :: rest)) groups groups :=
    Regex.eats_one (scannedLetters_of_isLower hlower.1)
  refine hfirst.seq (Regex.eats_many (fun d hd => scannedNames_of_isLower (hlower.2 d hd)) ?_)
  intro d hd
  rcases hbody.head_append hd with rfl | rfl <;> decide

/-- The end of a tag, after a blank if attributes follow. -/
theorem eats_tagEnd (hbody : TagBody body) :
    Eats (.seq (.opt (.seq (.one (.ofKind .blank)) (.few (CharSet.ofList ['<', '>']).not)))
      (Pattern.char '>')) (body ++ ['>']) before rest groups groups := by
  cases body with
  | nil =>
    refine Eats.seq (Eats.alt_right (Refuses.seq (Regex.refuses_one fun c hc => ?_))
      Regex.eats_empty) eats_char
    cases hc
    rfl
  | cons c body =>
    cases hbody.head c rfl
    have hangles := hbody.angles
    rw [List.mem_cons, List.mem_cons, not_or, not_or] at hangles
    have hblank : Eats (.one (.ofKind .blank)) [' '] before ((body ++ ['>']) ++ rest) groups groups :=
      Regex.eats_one rfl
    refine Eats.opt_seq (Eats.assoc (hblank.seq (Regex.eats_few (fun d hd => ?_) hangles.2.2)))
    rw [CharSet.contains_not, CharSet.contains_ofList]
    have hleft : d ≠ '<' := fun h => hangles.1.2 (h ▸ hd)
    have hright : d ≠ '>' := fun h => hangles.2.2 (h ▸ hd)
    simp [hleft, hright]

theorem eats_slash (hname : LowerName name) :
    Eats (.opt (Pattern.char '/')) (if closing then ['/'] else []) before (name ++ rest) groups
      groups := by
  cases closing with
  | true => exact Eats.alt_left eats_char
  | false =>
    obtain ⟨c, cs, rfl⟩ := List.exists_cons_of_ne_nil hname.ne_nil
    refine Eats.alt_right (refuses_char ?_) Regex.eats_empty
    rintro d hd rfl
    cases hd
    exact hname.not_mem rfl List.mem_cons_self

theorem eats_tag (hname : LowerName name) (hbody : TagBody body) :
    Eats Pattern.tag (tagText closing name body) before rest []
      [(1, .of name ((body ++ ['>']) ++ rest))] := by
  have hinside : Eats (.seq (.one scannedLetters) (.many scannedNames)) name
      ((['<'] ++ if closing then ['/'] else []).reverse ++ before) ((body ++ ['>']) ++ rest) [] [] := by
    rw [List.append_assoc]
    exact eats_scannedName hname hbody
  have hmatch := Eats.assoc (((Eats.seq (eats_char (c := '<')) (eats_slash hname)).seq
    (hinside.group (i := 1))).seq (eats_tagEnd hbody))
  have htext : ((['<'] ++ if closing then ['/'] else []) ++ name) ++ (body ++ ['>']) =
      tagText closing name body := by
    simp [tagText]
  rw [htext] at hmatch
  exact hmatch

/-! ## Marks -/

theorem lower_ofList (hname : LowerName name) :
    Text.lower (String.ofList name) = String.ofList name := by
  have hascii : ∀ c ∈ (String.ofList name).toList, c.toNat < 128 := by
    rw [String.toList_ofList]
    intro c hc
    have hcode := Text.isLower_iff.mp (hname.lower c hc)
    omega
  have hsmall : name.map Char.toLower = name :=
    Text.map_toLower_eq_self fun c hc => Text.isUpper_of_isLower (hname.lower c hc)
  rw [← String.toList_inj, Text.toList_lower hascii, String.toList_ofList, hsmall]

theorem isPrefixOf_tagText (hname : LowerName name) :
    "</".toList.isPrefixOf (tagText closing name body) = closing := by
  cases closing with
  | true => rfl
  | false =>
    obtain ⟨c, cs, rfl⟩ := List.exists_cons_of_ne_nil hname.ne_nil
    have hc : ('/' == c) = false := by
      rw [beq_eq_false_iff_ne]
      rintro rfl
      exact hname.not_mem rfl List.mem_cons_self
    simp [tagText, List.isPrefixOf, hc]

theorem isSuffixOf_tagText (hname : LowerName name) (hbody : TagBody body) :
    "/>".toList.isSuffixOf (tagText closing name body) = false := by
  have hlast : ∀ c, (name ++ body).getLast? = some c → c ≠ '/' := by
    intro c hc
    rw [List.getLast?_append, Option.or_eq_some_iff] at hc
    rcases hc with hc | ⟨-, hc⟩
    · exact hbody.last c hc
    · rintro rfl
      exact hname.not_mem rfl (List.mem_of_getLast? hc)
  cases hsuffix : "/>".toList.isSuffixOf (tagText closing name body) with
  | false => rfl
  | true =>
    obtain ⟨t, ht⟩ := List.isSuffixOf_iff_suffix.mp hsuffix
    have hfront : t ++ ['/'] = '<' :: ((if closing then ['/'] else []) ++ (name ++ body)) := by
      have hwhole : (t ++ ['/']) ++ ['>'] =
          ('<' :: ((if closing then ['/'] else []) ++ (name ++ body))) ++ ['>'] := by
        simpa [tagText] using ht
      exact List.append_cancel_right hwhole
    obtain ⟨c, hc⟩ := Option.isSome_iff_exists.mp
      (List.getLast?_isSome.mpr (List.append_ne_nil_of_left_ne_nil hname.ne_nil body))
    have hslash := congrArg List.getLast? hfront
    rw [List.getLast?_concat, List.getLast?_cons, List.getLast?_append, hc] at hslash
    exact absurd hslash.symm (by simpa using hlast c hc)

theorem gives_tag (closing : Bool) (hname : LowerName name) (hbody : TagBody body) :
    Gives Pattern.tag TagMark.ofMatch (tagText closing name body)
      [⟨String.ofList name, closing, false⟩] := by
  refine Regex.gives_eaten (by simp [tagText]) (fun _ _ => eats_tag hname hbody) fun _ _ => ?_
  rw [TagMark.ofMatch, Regex.Match.group_eq (List.lookup_cons_self ..), Regex.Match.text]
  dsimp only
  rw [Regex.Cursor.textTo_spot, lower_ofList hname, isPrefixOf_tagText hname,
    isSuffixOf_tagText hname hbody]

/-- Where there is no mark there are no tags. -/
theorem refuses_tag {s : Regex.Cursor} (h : s.after.head? ≠ some '<') :
    Refuses (Regex.run Pattern.tag) s :=
  Refuses.seq (Refuses.seq (Refuses.seq (Refuses.seq (refuses_char fun c hc => by
    rintro rfl
    exact h hc))))

theorem gives_text {s : List Char} (h : '<' ∉ s) : Gives Pattern.tag TagMark.ofMatch s [] := by
  refine Regex.gives_of_silent fun before rest p c q hs => refuses_tag (fun hc => ?_) some
  cases hc
  rw [hs] at h
  exact h (by simp)

/-- All tags of a text. -/
theorem allMatches_tag {s : List Char} {ts : List TagMark}
    (h : Gives Pattern.tag TagMark.ofMatch s ts) : (Pattern.tag.allMatches s).map .ofMatch = ts :=
  h.allMatches fun _ => refuses_tag (by simp [spot]) some

end BlockMarkup.Markup
