import Mathlib
import BlockMarkup.Markup.RootScan
import BlockMarkup.Proofs.Markup.RawText
import BlockMarkup.Proofs.Text.Letters

/-! # Plain tags

Before the tags of a text are scanned, comments, character data and the elements that hold raw text
are removed. Each of their patterns matches from a `<` on and wants something else behind it than a
plain tag has: neither `!` nor one of the names in `removedNames`, in whatever case. So a text in which
every `<` begins a plain tag stays as it is (`Overlooks.removeAll`), its quoted values apart
(`stripForRootScan_eq`).
-/

namespace BlockMarkup

namespace Regex

theorem toNat_of_isAlpha {c : Char} (hc : c.isAlpha = true) : 65 ≤ c.toNat ∧ c.toNat ≤ 122 := by
  simp only [Char.isAlpha, Char.isUpper, Bool.or_eq_true, decide_eq_true_eq, ge_iff_le,
    UInt32.le_iff_toNat_le] at hc
  rcases hc with ⟨hge, hle⟩ | hc
  · exact ⟨hge, Nat.le_trans hle (by decide)⟩
  · have hcode := Text.isLower_iff.mp hc
    omega

theorem le_of_mem_foldCompanionsOf {c d : Char} (hc : c.toNat < 128)
    (h : d ∈ Text.foldCompanionsOf c) : 128 ≤ d.toNat := by
  have hrows : ∀ row ∈ Text.foldCompanions, ∀ n ∈ row.head?, n < 128 →
      ∀ m ∈ row.tail, 128 ≤ (Char.ofNat m).toNat := by
    decide +kernel
  rw [Text.foldCompanionsOf] at h
  split at h
  · rename_i row hrow
    obtain ⟨m, hm, rfl⟩ := List.mem_map.mp h
    have hhead := List.find?_some hrow
    rw [beq_iff_eq] at hhead
    exact hrows row (List.mem_of_find?_eq_some hrow) c.toNat hhead hc m hm
  · cases h

/-- In ASCII, a character counts as equal to itself in small letters and to the capital of that. -/
theorem toNat_of_contains_foldCase {a c : Char} (ha : a.toNat < 128) (hc : c.toNat < 128)
    (hlower : c.toLower = c) (h : (CharSet.single a).foldCase.contains c = true) :
    a.toNat = c.toNat ∨ 97 ≤ c.toNat ∧ c.toNat ≤ 122 ∧ a.toNat = c.toNat - 32 := by
  have hmem := mem_variants_of_contains_foldCase h
  have hsame : Text.lowerChar c = c := by rw [Text.lowerChar, if_pos hc, hlower]
  have hcompanion : ∀ n ∈ (Text.foldCompanionsOf c).map Char.toNat, 128 ≤ n := by
    intro n hn
    obtain ⟨d, hd, rfl⟩ := List.mem_map.mp hn
    exact le_of_mem_foldCompanionsOf hc hd
  simp only [CaseRule.variants, hsame, List.mem_append, List.mem_cons, List.mem_flatMap] at hmem
  rcases hmem with (hmem | hmem) | ⟨n, rfl | hn, hmem⟩
  · exact Or.inl hmem
  · have hle := hcompanion _ hmem
    omega
  · exact Or.inr (eq_of_mem_unlowered hmem ha)
  · have hle := hcompanion _ hn
    have hcapital := eq_of_mem_unlowered hmem ha
    omega

/-- The letters that count as equal to a small letter are it and its capital. -/
theorem toLower_of_contains_foldCase {a c : Char} (ha : a.isAlpha = true) (hc : c.isLower = true)
    (h : (CharSet.single a).foldCase.contains c = true) : a.toLower = c := by
  have hsmall : c.toLower = c := Char.toLower_eq_of_not_isUpper (Char.not_isUpper_of_isLower hc)
  have hletter := (toNat_of_isAlpha ha).2
  have hcode := Text.isLower_iff.mp hc
  rcases toNat_of_contains_foldCase (by omega) (by omega) hsmall h with heq | ⟨hge, hle, heq⟩
  · rw [Char.toNat_inj.mp heq, hsmall]
  · have hlow : 65 ≤ a.toNat := by omega
    have hhigh : a.toNat ≤ 90 := by omega
    have hcapital : a.isUpper = true := by
      simp only [Char.isUpper, Bool.decide_and, Bool.and_eq_true, decide_eq_true_eq, ge_iff_le,
        UInt32.le_iff_toNat_le]
      exact ⟨hlow, hhigh⟩
    have hback : c.toNat - 32 + 32 = c.toNat := by omega
    rw [Char.toLower_eq_of_isUpper hcapital, heq, hback, Char.ofNat_toNat]

/-- No letter counts as equal to a sign behind the name of a tag. -/
theorem not_contains_foldCase {a c : Char} (ha : a.isAlpha = true) (hc : c ∈ [' ', '/', '>']) :
    (CharSet.single a).foldCase.contains c = false := by
  obtain ⟨hlt, hlower⟩ : c.toNat < 65 ∧ c.toLower = c := by
    simp only [List.mem_cons, List.not_mem_nil, or_false] at hc
    rcases hc with rfl | rfl | rfl <;> decide
  have hcode := toNat_of_isAlpha ha
  cases h : (CharSet.single a).foldCase.contains c with
  | false => rfl
  | true =>
    have hequal := toNat_of_contains_foldCase (by omega) (by omega) hlower h
    omega

end Regex

namespace Markup

open BlockMarkup.Regex (CharSet Cursor Refuses)
open BlockMarkup.Regex.Cursor (spot)

/-- The elements that are removed with all that is in them, in small letters. -/
def removedNames : List String :=
  ["script", "style", "template", "textarea", "noscript", "xmp", "listing", "foreignobject"]

/-- What stands behind the `<` of a tag that is neither a comment nor a section nor a tag of an element
that is removed. -/
structure PlainTag (tail : List Char) : Prop where
  exists_name : ∃ name d rest, tail = name ++ d :: rest ∧ (∀ c ∈ name, c.isLower = true) ∧
    String.ofList name ∉ removedNames ∧ d ∈ [' ', '/', '>']
  not_blank : tail.head? ≠ some ' '

/-- Every `<` begins a plain tag. -/
def Tagged (s : List Char) : Prop := ∀ p tail, s = p ++ '<' :: tail → PlainTag tail

/-- The pattern refuses wherever no tag begins, and where a plain one does. -/
def Overlooks (r : Regex) : Prop :=
  ∀ s : Cursor, (∀ tail, s.after = '<' :: tail → PlainTag tail) → Refuses (Regex.run r) s

variable {s tail : List Char}

/-! ## Tagged text -/

theorem tagged_nil : Tagged [] := by
  intro p tail h
  cases p <;> cases h

theorem tagged_of_not_mem (h : '<' ∉ s) : Tagged s := by
  rintro p tail rfl
  exact absurd (by simp) h

theorem PlainTag.append (h : PlainTag tail) (rest : List Char) : PlainTag (tail ++ rest) := by
  obtain ⟨⟨name, d, rest', rfl, hname, hremoved, hd⟩, hblank⟩ := h
  refine ⟨⟨name, d, rest' ++ rest, by simp, hname, hremoved, hd⟩, ?_⟩
  cases name with
  | nil => exact hblank
  | cons c name => exact hblank

/-- A text with tags, and another behind it. -/
theorem Tagged.append {t : List Char} (hs : Tagged s) (ht : Tagged t) : Tagged (s ++ t) := by
  intro p tail h
  rcases List.append_eq_append_iff.mp h with ⟨q, rfl, hq⟩ | ⟨q, rfl, hq⟩
  · exact ht q tail hq
  · cases q with
    | nil => exact ht [] tail hq.symm
    | cons c q =>
      cases hq
      exact (hs p q rfl).append t

/-- A tag is tagged text. -/
theorem tagged_tag (h : PlainTag tail) (hmem : '<' ∉ tail) : Tagged ('<' :: tail) := by
  intro p tail' heq
  cases p with
  | nil =>
    cases heq
    exact h
  | cons c p =>
    cases heq
    exact absurd (by simp) hmem

/-! ## Patterns that overlook it -/

theorem PlainTag.head_cases (h : PlainTag tail) :
    ∃ c rest, tail = c :: rest ∧ (c.isLower = true ∨ c = '/' ∨ c = '>') := by
  obtain ⟨⟨name, d, rest, rfl, hname, -, hd⟩, hblank⟩ := h
  cases name with
  | nil =>
    refine ⟨d, rest, rfl, Or.inr ?_⟩
    simp only [List.mem_cons, List.not_mem_nil, or_false] at hd
    rcases hd with rfl | hd
    · exact absurd rfl hblank
    · exact hd
  | cons c name => exact ⟨c, name ++ d :: rest, rfl, Or.inl (hname c List.mem_cons_self)⟩

theorem PlainTag.isBlank_head {c : Char} (h : PlainTag (c :: tail)) : Text.isBlank c = false := by
  obtain ⟨d, rest, heq, hcases⟩ := h.head_cases
  cases heq
  rcases hcases with hlower | rfl | rfl
  · have hcode := Text.isLower_iff.mp hlower
    simp [Text.isBlank]
    omega
  · rfl
  · rfl

/-- A pattern that begins with a `<` and a sign that no plain tag has there. -/
theorem overlooks_text {t : String} {c : Char} {cs : List Char} {r : Regex}
    (ht : t.toList = '<' :: c :: cs) (hc : (c.isLower || c == '/' || c == '>') = false) :
    Overlooks (.text t ++ r) := by
  intro s hs
  refine Refuses.seq (Regex.refuses_of_yields Regex.yields_text fun u hu => ?_)
  rw [ht] at hu
  obtain ⟨d, rest, hd, hcases⟩ := (hs _ hu).head_cases
  cases hd
  rcases hcases with h | rfl | rfl
  · rw [h] at hc
    cases hc
  · cases hc
  · cases hc

theorem overlooks_comment : Overlooks Pattern.comment :=
  fun s hs => Refuses.seq (overlooks_text (t := "<!--") rfl (by decide) s hs)

theorem overlooks_characterData : Overlooks Pattern.characterData :=
  fun s hs => Refuses.seq (overlooks_text (t := "<![CDATA[") rfl (by decide) s hs)

/-! ### Elements with raw text -/

/-- The end of a word. -/
def wordEnd : Anchor := .wordBoundary false false

/-- What is left to do fails within a word. -/
def NeedsWordEnd (k : Cursor → Option Cursor) : Prop :=
  ∀ u, Regex.anchorHolds wordEnd u = false → k u = none

theorem isWordChar_of_isLower {c : Char} (hc : c.isLower = true) : Text.isWordChar c = true := by
  have hcode := Text.isLower_iff.mp hc
  rw [Text.isWordChar, Text.isAlphanumeric, if_pos (by omega), Char.isAlphanum, Char.isAlpha, hc]
  simp

theorem anchorHolds_wordEnd {u : Cursor} {c d : Char} {before after : List Char}
    (hbefore : u.before = c :: before) (hafter : u.after = d :: after)
    (hc : Text.isWordChar c = true) (hd : Text.isWordChar d = true) :
    Regex.anchorHolds wordEnd u = false := by
  simp [wordEnd, Regex.anchorHolds, hbefore, hafter, Regex.CharKind.holds, hc, hd]

/-- No other name than its own is matched by a pattern for a name: where the text goes on with other
letters or ends before the name does, the pattern fails, and where the text goes on behind the name,
it is still within a word. -/
theorem run_nameAnyCase {word name rest : List Char} {d : Char} {s : Cursor}
    {k : Cursor → Option Cursor} (hafter : s.after = name ++ d :: rest)
    (hletters : ∀ a ∈ word, a.isAlpha = true) (hname : ∀ c ∈ name, c.isLower = true)
    (hd : d ∈ [' ', '/', '>']) (hne : word.map Char.toLower ≠ name)
    (hword : word = [] → s.before.head?.any Text.isWordChar = true) (hk : NeedsWordEnd k) :
    Regex.run (word.foldr (fun c r => .seq (.one (CharSet.single c).foldCase) r) .empty) s k =
      none := by
  induction word generalizing name s with
  | nil =>
    cases name with
    | nil => exact absurd rfl hne
    | cons c name =>
      -- the name goes on, so that no word ends here
      have hbefore := hword rfl
      cases hhead : s.before with
      | nil =>
        rw [hhead] at hbefore
        cases hbefore
      | cons b before =>
        rw [hhead] at hbefore
        exact hk s (anchorHolds_wordEnd hhead hafter hbefore
          (isWordChar_of_isLower (hname c List.mem_cons_self)))
  | cons a word ih =>
    rw [List.forall_mem_cons] at hletters
    rw [List.foldr_cons, Regex.run_seq]
    cases name with
    | nil => rw [Regex.run_one_cons hafter, Regex.not_contains_foldCase hletters.1 hd]; rfl
    | cons c name =>
      rw [List.forall_mem_cons] at hname
      rw [Regex.run_one_cons hafter]
      split
      · rename_i hsame
        have hlower : a.toLower = c :=
          Regex.toLower_of_contains_foldCase hletters.1 hname.1 hsame
        refine ih rfl hletters.2 hname.2 (fun h => hne ?_) fun _ => ?_
        · rw [List.map_cons, hlower, h]
        · exact isWordChar_of_isLower hname.1
      · rfl

theorem run_oneOf_eq_none {rs : List Regex} {s : Cursor} {k : Cursor → Option Cursor}
    (h : ∀ r ∈ rs, Regex.run r s k = none) : Regex.run (.oneOf rs) s k = none := by
  induction rs with
  | nil => exact Regex.refuses_one (fun _ _ => rfl) k
  | cons r rs ih =>
    rw [List.forall_mem_cons] at h
    cases rs with
    | nil => exact h.1
    | cons r' rs =>
      rw [Regex.oneOf, Regex.run_alt, h.1, ih h.2]
      · rfl
      · simp

/-- The elements of a pattern are among those that are removed. -/
def isRemoved (name : String) : Bool :=
  !name.toList.isEmpty && name.toList.all Char.isAlpha &&
    removedNames.contains (String.ofList (name.toList.map Char.toLower))

theorem overlooks_rawElement {names : List String} (hnames : names.all isRemoved = true) :
    Overlooks (Pattern.rawElement names) := by
  intro s hs
  have hname : Refuses (Regex.run (.seq (.seq (Pattern.char '<') .blanks)
      (.seq (.group 1 (.oneOf (names.map .textAnyCase))) (.anchor wordEnd)))) s := by
    refine Regex.refuses_seq_of_yields ((Token.yields_char '<').seq Token.yields_blanks) ?_
    rintro u ⟨v, hv, bl, hbl, hblanks⟩ k
    have hplain := hs _ hv
    have hafter : v.after = u.after := by
      cases bl with
      | nil => exact hblanks
      | cons b bl =>
        -- no blank stands behind the sign
        rw [hblanks] at hplain
        exact absurd (hbl b List.mem_cons_self) (by rw [hplain.isBlank_head]; simp)
    rw [hafter] at hplain
    obtain ⟨⟨name, d, rest, htail, hlower, hremoved, hd⟩, -⟩ := hplain
    refine run_oneOf_eq_none fun r hr => ?_
    obtain ⟨o, ho, rfl⟩ := List.mem_map.mp hr
    have hmember := List.all_eq_true.mp hnames o ho
    simp only [isRemoved, Bool.and_eq_true, Bool.not_eq_true', List.isEmpty_eq_false_iff,
      List.all_eq_true, List.contains_iff_mem] at hmember
    refine run_nameAnyCase htail hmember.1.2 hlower hd (fun h => ?_)
      (fun h => absurd h hmember.1.1) fun w hw => ?_
    · rw [← h] at hremoved
      exact hremoved hmember.2
    · -- the group is recorded, which no anchor sees
      have hrecorded : Regex.anchorHolds wordEnd (u.record w 1) = false := hw
      exact if_neg (by simp [hrecorded])
  iterate 8 refine Refuses.seq ?_
  exact hname

theorem overlooks_scriptOrStyle : Overlooks Pattern.scriptOrStyle :=
  overlooks_rawElement (by decide)

theorem overlooks_textContainer : Overlooks Pattern.textContainer :=
  overlooks_rawElement (by decide)

/-! ### Tagged text stays -/

theorem Overlooks.removeAll {r : Regex} (h : Overlooks r) (hs : Tagged s) : r.removeAll s = s := by
  refine Regex.replaceAll_eq_self (fun p c q hpos => ?_) ?_
  · refine h _ (fun tail htail => hs p tail ?_) some
    rw [hpos, ← htail]
    simp [spot]
  · exact h _ (fun tail htail => by cases htail) some

/-- Of the text with its quoted values blanked, nothing else is removed. -/
theorem stripForRootScan_eq {t : List Char} (hs : Tagged s) (ht : Tagged t)
    (hvalues : Pattern.quotedValue.replaceAll (fun _ => "=\"\"".toList) s = t) :
    stripForRootScan s = t := by
  rw [stripForRootScan, removeEach, List.foldl_cons, List.foldl_cons, List.foldl_cons,
    List.foldl_nil, overlooks_comment.removeAll hs, overlooks_characterData.removeAll hs,
    overlooks_scriptOrStyle.removeAll hs, hvalues,
    overlooks_textContainer.removeAll ht]

end Markup

end BlockMarkup
