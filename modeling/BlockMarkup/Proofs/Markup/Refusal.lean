import Mathlib.Logic.Relation
import BlockMarkup.Markup.Document
import BlockMarkup.Proofs.Result
import BlockMarkup.Proofs.Markup.Cutting
import BlockMarkup.Proofs.Markup.TokenProgress

/-! # Markup that is refused

Cutting fails just where it comes to a marked section without a keyword or with one that it does not know
(`read_eq_error_iff`). Such a section is told by its characters (`RefusedAt`); where cutting comes to is told
by the steps it takes (`Goes`), each of which reads one construct. Documents with such markup are read as
empty ones that tell of the section (`Document.refusal_eq_some_iff`).
-/

namespace BlockMarkup.Markup.Token

open BlockMarkup.Regex (CharSet Cursor Eats Refuses Advances)
open BlockMarkup.Regex.Cursor (spot)

variable {s t : Cursor} {before after rest word blanks : List Char} {e : MarkupError}
  {groups : List (Nat × Regex.Capture)}

/-! ## Marked sections -/

/-- The characters of a keyword behind the first one. -/
def keywordSet : CharSet :=
  (Pattern.letterSet.or (.between '0' '9')).or (.ofList ['-', '_', '.'])

/-- A keyword and the blanks behind it, which both go as far as they can. -/
structure IsKeyword (word blanks rest : List Char) : Prop where
  first : ∃ c cs, word = c :: cs ∧ Pattern.letterSet.contains c = true ∧
    ∀ d ∈ cs, keywordSet.contains d = true
  isBlank : ∀ c ∈ blanks, Text.isBlank c = true
  ends : ∀ c, (blanks ++ rest).head? = some c → keywordSet.contains c = false
  behind : ∀ c, rest.head? = some c → Text.isBlank c = false

/-- A marked section that is refused stands in front: something else than a keyword is behind its opening
mark, or a keyword that no section has. -/
inductive RefusedAt : List Char → MarkupError → Prop where
  | missingName {c : Char} {rest : List Char} (hc : Pattern.letterSet.contains c = false) :
      RefusedAt ('<' :: '!' :: '[' :: c :: rest)
        (.missingName (('<' :: '!' :: '[' :: c :: rest).take 20))
  | unknownSection {word blanks rest : List Char} (h : IsKeyword word blanks rest) (hrest : rest ≠ [])
      (hsection : Text.lower (String.ofList word) ∉ sectionKeywords)
      (hconditional : Text.lower (String.ofList word) ∉ conditionalKeywords) :
      RefusedAt ('<' :: '!' :: '[' :: (word ++ blanks ++ rest)) (.unknownSection (word ++ blanks))

theorem RefusedAt.opens {s : List Char} (h : RefusedAt s e) : ∃ body, s = '<' :: '!' :: '[' :: body := by
  cases h <;> exact ⟨_, rfl⟩

theorem exists_isKeyword {c : Char} (hc : Pattern.letterSet.contains c = true) (s : List Char) :
    ∃ word blanks rest, c :: s = word ++ blanks ++ rest ∧ IsKeyword word blanks rest := by
  obtain ⟨cs, behind, rfl, hcs, hends⟩ := Regex.exists_run keywordSet.contains s
  obtain ⟨blanks, rest, rfl, hblanks, hbehind⟩ := Regex.exists_run Text.isBlank behind
  exact ⟨c :: cs, blanks, rest, by simp, ⟨_, _, rfl, hc, hcs⟩, hblanks, hends, hbehind⟩

theorem eats_sectionKeyword (h : IsKeyword word blanks rest) (before : List Char) :
    Eats Pattern.sectionKeyword (word ++ blanks) before rest [] [(1, .of word (blanks ++ rest))] := by
  obtain ⟨c, cs, rfl, hc, hcs⟩ := h.first
  have hword : Eats (.one Pattern.letterSet ++ .many keywordSet) ([c] ++ cs) before (blanks ++ rest) [] [] :=
    (Regex.eats_one hc).seq (Regex.eats_many hcs h.ends)
  exact hword.group.seq (Regex.eats_many (fun d hd => CharSet.contains_blank.trans (h.isBlank d hd))
    fun d hd => CharSet.contains_blank.trans (h.behind d hd))

theorem matchAt_sectionKeyword (h : IsKeyword word blanks rest) (before : List Char)
    (groups : List (Nat × Regex.Capture)) :
    ∃ m, Regex.matchAt Pattern.sectionKeyword (spot before (word ++ blanks ++ rest) groups) = some m ∧
      m.stop.after = rest ∧ m.group 1 = word ∧ m.text = word ++ blanks :=
  ⟨_, (eats_sectionKeyword h before).matchAt groups, rfl, Regex.Match.group_eq rfl,
    Regex.Cursor.textTo_spot _ _ _ _ _⟩

/-- A section with a keyword is refused if there is something behind it and no section has it. -/
theorem readSection_keyword (h : IsKeyword word blanks rest) :
    readSection (spot before ('<' :: '!' :: '[' :: (word ++ blanks ++ rest)) groups) = .error e ↔
      rest ≠ [] ∧ Text.lower (String.ofList word) ∉ sectionKeywords ∧
        Text.lower (String.ofList word) ∉ conditionalKeywords ∧ .unknownSection (word ++ blanks) = e := by
  have hbody : (spot before ('<' :: '!' :: '[' :: (word ++ blanks ++ rest)) groups).advance 3 =
      spot ('[' :: '!' :: '<' :: before) (word ++ blanks ++ rest) groups := rfl
  have hne : (spot ('[' :: '!' :: '<' :: before) (word ++ blanks ++ rest) groups).after.isEmpty = false := by
    obtain ⟨c, cs, rfl, -⟩ := h.first
    rfl
  obtain ⟨m, hmatch, hstop, hgroup, htext⟩ :=
    matchAt_sectionKeyword h ('[' :: '!' :: '<' :: before) groups
  rw [readSection, hbody]
  simp only [hne, hmatch, hstop, hgroup, htext, Bool.false_eq_true, if_false, List.contains_iff_mem,
    List.isEmpty_iff]
  by_cases hrest : rest = []
  · simp [hrest]
  by_cases hsection : Text.lower (String.ofList word) ∈ sectionKeywords
  · simp [hrest, hsection]
  by_cases hconditional : Text.lower (String.ofList word) ∈ conditionalKeywords
  · simp [hrest, hsection, hconditional]
  · simp [hrest, hsection, hconditional]

theorem readSection_missing {c : Char} (hc : Pattern.letterSet.contains c = false) :
    readSection (spot before ('<' :: '!' :: '[' :: c :: rest) groups) =
      .error (.missingName (('<' :: '!' :: '[' :: c :: rest).take 20)) := by
  have hbody : (spot before ('<' :: '!' :: '[' :: c :: rest) groups).advance 3 =
      spot ('[' :: '!' :: '<' :: before) (c :: rest) groups := rfl
  have hletter : Refuses (Regex.run (.one Pattern.letterSet))
      (spot ('[' :: '!' :: '<' :: before) (c :: rest) []) :=
    Regex.refuses_one fun d hd => by cases hd; exact hc
  have hmatch : Regex.matchAt Pattern.sectionKeyword
      (spot ('[' :: '!' :: '<' :: before) (c :: rest) groups) = none :=
    Regex.matchAt_eq_none hletter.seq.group.seq
  rw [readSection, hbody]
  dsimp only
  rw [hmatch]
  rfl

theorem readSection_eq_error_iff {body : List Char} :
    readSection (spot before ('<' :: '!' :: '[' :: body) groups) = .error e ↔
      RefusedAt ('<' :: '!' :: '[' :: body) e := by
  constructor
  · intro h
    cases body with
    | nil => cases h
    | cons c body =>
      by_cases hc : Pattern.letterSet.contains c = true
      · obtain ⟨word, blanks, rest, hbody, hkeyword⟩ := exists_isKeyword hc body
        rw [hbody] at h ⊢
        obtain ⟨hrest, hsection, hconditional, rfl⟩ := (readSection_keyword hkeyword).mp h
        exact .unknownSection hkeyword hrest hsection hconditional
      · rw [Bool.not_eq_true] at hc
        rw [readSection_missing hc] at h
        obtain rfl := Except.error.inj h
        exact .missingName hc
  · intro h
    cases h with
    | missingName hc => exact readSection_missing hc
    | unknownSection hkeyword hrest hsection hconditional =>
      exact (readSection_keyword hkeyword).mpr ⟨hrest, hsection, hconditional, rfl⟩

theorem readTag_section {body : List Char} (before : List Char)
    (groups : List (Nat × Regex.Capture)) :
    readTag (spot before ('<' :: '!' :: '[' :: body) groups) =
      readSection (spot before ('<' :: '!' :: '[' :: body) groups) := rfl

theorem exists_section_of_readTag (h : readTag s = .error e) :
    ∃ body, s.after = '<' :: '!' :: '[' :: body := by
  rw [readTag] at h
  split at h
  · cases h
  · cases h
  · cases h
  · rw [readDeclaration] at h
    split at h
    · next hmark =>
      obtain ⟨body, hbody⟩ := List.isPrefixOf_iff_prefix.mp hmark
      exact ⟨body, hbody.symm⟩
    · split at h <;> cases h
  · cases h
  · cases h

/-- A construct is refused just if it is a marked section that is refused. -/
theorem readTag_eq_error_iff (hplaced : s.pos = s.before.length) :
    readTag s = .error e ↔ RefusedAt s.after e := by
  obtain ⟨before, after, pos, groups⟩ := s
  obtain rfl : pos = before.length := hplaced
  constructor
  · intro h
    obtain ⟨body, rfl⟩ := exists_section_of_readTag h
    exact readSection_eq_error_iff.mp ((readTag_section before groups).symm.trans h)
  · intro h
    obtain ⟨body, rfl⟩ := h.opens
    exact (readTag_section before groups).trans (readSection_eq_error_iff.mpr h)

/-! ## Where cutting comes to -/

/-- Where the cutting of markup stands: whether an incomplete construct has begun the last stretch, the
element whose raw content is being read, and the cursor. -/
structure Place where
  final : Bool
  raw : Option String
  cursor : Cursor

/-- Where the cutting of a markup text begins. -/
def Place.start (s : List Char) : Place := ⟨false, none, .start s⟩

/-- One step of cutting. -/
inductive Goes : Place → Place → Prop where
  | raw {final : Bool} {name : String} {s t : Cursor} {ts : List Token} {raw : Option String}
      (h : readRaw name s = some (ts, t, raw)) : Goes ⟨final, some name, s⟩ ⟨final, raw, t⟩
  | tag {final : Bool} {s t : Cursor} {ts : List Token} (hhead : s.after.head? = some '<')
      (h : readTag s = .ok (some (ts, t))) : Goes ⟨final, none, s⟩ ⟨final, rawAfter ts, t⟩
  | firstIncomplete {s : Cursor} (hhead : s.after.head? = some '<') (h : readTag s = .ok none) :
      Goes ⟨false, none, s⟩ ⟨true, none, s⟩
  | incomplete {s : Cursor} (hhead : s.after.head? = some '<') (h : readTag s = .ok none)
      (hmore : 1 < s.after.length) : Goes ⟨true, none, s⟩ ⟨true, none, (readIncomplete s).2⟩
  | reference {final : Bool} {s t : Cursor} {ts : List Token} (hhead : s.after.head? = some '&')
      (h : readReference s = some (ts, t)) : Goes ⟨final, none, s⟩ ⟨final, none, t⟩
  | firstReference {s : Cursor} (hhead : s.after.head? = some '&') (h : readReference s = none) :
      Goes ⟨false, none, s⟩ ⟨true, none,
        if s.after.tail.head? = some '#' ∧ s.after.contains ';' then s.advance 2 else s⟩
  | text {final : Bool} {c : Char} {s : Cursor} (hhead : s.after.head? = some c) (hangle : c ≠ '<')
      (hmark : c ≠ '&') : Goes ⟨final, none, s⟩ ⟨final, none, (readText s).2⟩

/-- A marked section that is refused stands at the place, and is not raw content. -/
def Place.Refuses (p : Place) (e : MarkupError) : Prop := p.raw = none ∧ RefusedAt p.cursor.after e

/-- Cutting comes to a marked section that is refused. -/
def Refused (s : List Char) (e : MarkupError) : Prop :=
  ∃ p, Relation.ReflTransGen Goes (.start s) p ∧ p.Refuses e

/-- The cursor counts the characters behind it. -/
def Place.Placed (p : Place) : Prop := p.cursor.pos = p.cursor.before.length

/-- How many steps cutting can still take. -/
def Place.left (p : Place) : Nat := 2 * p.cursor.after.length + if p.final then 0 else 1

theorem length_lt_of_advances (h : Advances 1 s t) : t.after.length < s.after.length := by
  obtain ⟨cs, hcs, hafter, -⟩ := h
  rw [hafter, List.length_append]
  omega

theorem placed_of_advances {n : Nat} (h : Advances n s t) (hs : s.pos = s.before.length) :
    t.pos = t.before.length := by
  obtain ⟨cs, -, -, hbefore, hpos⟩ := h
  rw [hpos, hbefore, hs, List.length_append, List.length_reverse, Nat.add_comm]

section Steps

variable {p q : Place} {fuel : Nat} {out : List Token}

/-- A step goes forward or begins the last stretch. -/
theorem Goes.advances (h : Goes p q) :
    Advances 1 p.cursor q.cursor ∧ q.final = p.final ∨
      Advances 0 p.cursor q.cursor ∧ p.final = false ∧ q.final = true := by
  cases h with
  | raw h => exact .inl ⟨readRaw_advances h, rfl⟩
  | tag _ h => exact .inl ⟨readTag_forward h _ _ rfl, rfl⟩
  | firstIncomplete => exact .inr ⟨Regex.advances_refl _, rfl, rfl⟩
  | incomplete _ _ hmore =>
    exact .inl ⟨readIncomplete_advances (List.ne_nil_of_length_pos (Nat.lt_of_succ_lt hmore)), rfl⟩
  | reference _ h => exact .inl ⟨readReference_forward _ _ _ h, rfl⟩
  | firstReference =>
    refine .inr ⟨?_, rfl, rfl⟩
    dsimp only
    split
    · exact advances_advance 2 _
    · exact Regex.advances_refl _
  | text hhead hangle hmark => exact .inl ⟨readText_advances hhead hangle hmark, rfl⟩

theorem Goes.left_lt (h : Goes p q) : q.left < p.left := by
  rw [Place.left, Place.left]
  obtain ⟨hadvances, hfinal⟩ | ⟨hadvances, hfinal, hfinal'⟩ := h.advances
  · have hlt := length_lt_of_advances hadvances
    rw [hfinal]
    omega
  · -- the cursor may stay where it is, but the last stretch begins only once
    obtain ⟨cs, -, hafter, -⟩ := hadvances
    rw [hfinal, hfinal', hafter, List.length_append]
    simp only [if_true, Bool.false_eq_true, if_false]
    omega

theorem Goes.placed (h : Goes p q) (hp : p.Placed) : q.Placed := by
  obtain ⟨hadvances, -⟩ | ⟨hadvances, -⟩ := h.advances <;> exact placed_of_advances hadvances hp

/-- Cutting takes the step. -/
theorem Goes.scanFrom (h : Goes p q) (fuel : Nat) (out : List Token) :
    ∃ out', Token.scanFrom (fuel + 1) p.final p.raw out p.cursor =
      Token.scanFrom fuel q.final q.raw out' q.cursor := by
  cases h with
  | raw h => exact ⟨_, scanFrom_raw h⟩
  | tag hhead h =>
    obtain ⟨more, hafter⟩ := List.head?_eq_some_iff.mp hhead
    exact ⟨_, scanFrom_tag hafter h⟩
  | @firstIncomplete s hhead h =>
    obtain ⟨more, hafter⟩ := List.head?_eq_some_iff.mp hhead
    refine ⟨out, ?_⟩
    dsimp only
    rw [Token.scanFrom, hafter]
    dsimp only
    rw [h]
    rfl
  | @incomplete s hhead h hmore =>
    obtain ⟨more, hafter⟩ := List.head?_eq_some_iff.mp hhead
    have hbehind : more.isEmpty = false := by
      cases more with
      | nil => simp [hafter] at hmore
      | cons => rfl
    refine ⟨(readIncomplete s).1.reverse ++ out, ?_⟩
    rw [Token.scanFrom]
    simp only [hafter, h, hbehind, Bool.not_true, Bool.false_eq_true, if_false]
  | reference hhead h =>
    obtain ⟨more, hafter⟩ := List.head?_eq_some_iff.mp hhead
    exact ⟨_, scanFrom_reference hafter h⟩
  | @firstReference s hhead h =>
    obtain ⟨more, hafter⟩ := List.head?_eq_some_iff.mp hhead
    -- the mark of a number is cut off as text if a semicolon stands anywhere behind it
    by_cases htext : s.after.tail.head? = some '#' ∧ s.after.contains ';'
    · refine ⟨[Token.text ['&', '#']].reverse ++ out, ?_⟩
      simp only [Token.scanFrom, if_pos htext]
      simp only [hafter, List.tail_cons] at htext
      simp only [hafter, h, if_pos htext, Bool.false_eq_true, if_false]
    · refine ⟨out, ?_⟩
      simp only [Token.scanFrom, if_neg htext]
      simp only [hafter, List.tail_cons] at htext
      simp only [hafter, h, if_neg htext, Bool.false_eq_true, if_false, List.reverse_nil, List.nil_append]
  | text hhead hangle hmark =>
    obtain ⟨more, hafter⟩ := List.head?_eq_some_iff.mp hhead
    exact ⟨_, scanFrom_text hafter hangle hmark rfl⟩

/-- Cutting stops with the error where a marked section is refused. -/
theorem Place.Refuses.scanFrom (h : p.Refuses e) (hp : p.Placed) (fuel : Nat) (out : List Token) :
    Token.scanFrom (fuel + 1) p.final p.raw out p.cursor = .error e := by
  obtain ⟨hraw, href⟩ := h
  obtain ⟨body, hafter⟩ := href.opens
  rw [hraw, Token.scanFrom]
  simp only [hafter, (readTag_eq_error_iff hp).mpr href]

/-- Cutting stops at the place with what it has cut. -/
def Place.Stops (p : Place) : Prop :=
  ∀ fuel out, ∃ ts, Token.scanFrom (fuel + 1) p.final p.raw out p.cursor = .ok ts

section Places

variable {final : Bool} {more : List Char}

/-- A tag that cannot be completed is text in the last stretch, and ends it if nothing stands behind. -/
theorem goes_or_refuses_or_stops_tag (hs : s.pos = s.before.length) (hafter : s.after = '<' :: more) :
    (∃ q, Goes ⟨final, none, s⟩ q) ∨ (∃ e, Place.Refuses ⟨final, none, s⟩ e) ∨
      Place.Stops ⟨final, none, s⟩ := by
  have hhead : s.after.head? = some '<' := by rw [hafter]; rfl
  cases hread : readTag s with
  | error e => exact .inr (.inl ⟨e, rfl, (readTag_eq_error_iff hs).mp hread⟩)
  | ok r =>
    cases r with
    | some r => exact .inl ⟨_, .tag hhead hread⟩
    | none =>
      cases final with
      | false => exact .inl ⟨_, .firstIncomplete hhead hread⟩
      | true =>
        cases more with
        | nil =>
          refine .inr (.inr fun fuel out => ?_)
          simp only [Token.scanFrom, hafter, hread]
          exact ⟨_, rfl⟩
        | cons => exact .inl ⟨_, .incomplete hhead hread (by simp [hafter])⟩

/-- A reference that cannot be completed begins the last stretch or ends it. -/
theorem goes_or_stops_reference (hafter : s.after = '&' :: more) :
    (∃ q, Goes ⟨final, none, s⟩ q) ∨ Place.Stops ⟨final, none, s⟩ := by
  have hhead : s.after.head? = some '&' := by rw [hafter]; rfl
  cases hread : readReference s with
  | some r => exact .inl ⟨_, .reference hhead hread⟩
  | none =>
    cases final with
    | false => exact .inl ⟨_, .firstReference hhead hread⟩
    | true =>
      refine .inr fun fuel out => ?_
      simp only [Token.scanFrom, hafter, hread, if_true]
      exact ⟨_, rfl⟩

end Places

/-- At each place cutting takes a step, stops with an error or stops with what it has cut. -/
theorem Place.goes_or_refuses_or_stops (hp : p.Placed) :
    (∃ q, Goes p q) ∨ (∃ e, p.Refuses e) ∨ p.Stops := by
  obtain ⟨final, raw, s⟩ := p
  cases raw with
  | some name =>
    cases hread : readRaw name s with
    | some r => exact .inl ⟨_, .raw hread⟩
    | none =>
      -- raw text without an end is dropped
      refine .inr (.inr fun fuel out => ?_)
      simp only [Token.scanFrom, hread]
      exact ⟨_, rfl⟩
  | none =>
    cases hafter : s.after with
    | nil => exact .inr (.inr fun fuel out => ⟨_, by rw [Token.scanFrom, hafter]⟩)
    | cons c more =>
      by_cases hangle : c = '<'
      · subst hangle
        exact goes_or_refuses_or_stops_tag hp hafter
      · by_cases hmark : c = '&'
        · subst hmark
          exact (goes_or_stops_reference hafter).imp_right .inr
        · exact .inl ⟨_, .text (by rw [hafter]; rfl) hangle hmark⟩

/-- Cutting gives the error of a place that it comes to. -/
theorem scanFrom_eq_error (hreaches : Relation.ReflTransGen Goes p q) (hq : q.Refuses e) (hp : p.Placed)
    (hfuel : p.left < fuel) : scanFrom fuel p.final p.raw out p.cursor = .error e := by
  induction hreaches using Relation.ReflTransGen.head_induction_on generalizing fuel out with
  | refl =>
    obtain ⟨fuel, rfl⟩ := Nat.exists_eq_succ_of_ne_zero (Nat.ne_zero_of_lt hfuel)
    exact hq.scanFrom hp fuel out
  | head hgoes _ ih =>
    obtain ⟨fuel, rfl⟩ := Nat.exists_eq_succ_of_ne_zero (Nat.ne_zero_of_lt hfuel)
    obtain ⟨out', hout⟩ := hgoes.scanFrom fuel out
    have hleft := hgoes.left_lt
    exact hout.trans (ih (hgoes.placed hp) (by omega))

/-- The error that cutting gives is the one of a place that it comes to. -/
theorem exists_of_scanFrom (h : scanFrom fuel p.final p.raw out p.cursor = .error e) (hp : p.Placed) :
    ∃ q, Relation.ReflTransGen Goes p q ∧ q.Refuses e := by
  -- no fuel gives no error, so each level of it is a step of the run
  induction fuel generalizing p out with
  | zero => cases h
  | succ fuel ih =>
    obtain ⟨q, hgoes⟩ | ⟨e', hrefuses⟩ | hstops := Place.goes_or_refuses_or_stops hp
    · obtain ⟨out', hout⟩ := hgoes.scanFrom fuel out
      obtain ⟨r, hreaches, hr⟩ := ih (hout.symm.trans h) (hgoes.placed hp)
      exact ⟨r, .head hgoes hreaches, hr⟩
    · obtain rfl := Except.error.inj ((hrefuses.scanFrom hp fuel out).symm.trans h)
      exact ⟨p, .refl, hrefuses⟩
    · obtain ⟨ts, hts⟩ := hstops fuel out
      cases hts.symm.trans h

end Steps

/-- Cutting markup fails just if it comes to a marked section that is refused. -/
theorem read_eq_error_iff {s : List Char} : read s = .error e ↔ Refused s e := by
  have hplaced : (Place.start s).Placed := rfl
  constructor
  · intro h
    exact exists_of_scanFrom (p := .start s) h hplaced
  · rintro ⟨q, hreaches, hq⟩
    refine scanFrom_eq_error hreaches hq hplaced ?_
    simp only [Place.left, Place.start, Cursor.start]
    simp

end BlockMarkup.Markup.Token

namespace BlockMarkup.Markup.Document

/-- A document tells of the section for which its markup is refused. -/
theorem refusal_eq_some_iff {mode : RootMode} {s : List Char} {e : MarkupError} :
    (Document.read mode s).refusal = some e ↔ Token.Refused (sanitize (wrapped mode s)) e := by
  have hcut : Node.read (sanitize (wrapped mode s)) = .error e ↔
      Token.Refused (sanitize (wrapped mode s)) e :=
    map_eq_error.trans Token.read_eq_error_iff
  rw [← hcut]
  unfold Document.read
  dsimp only
  cases Node.read (sanitize (wrapped mode s)) <;> simp

end BlockMarkup.Markup.Document
