import BlockMarkup.Markup.Sanitize
import BlockMarkup.Proofs.Markup.StartTag
import BlockMarkup.Proofs.Regex.Demand

/-! # Words that are taken for template syntax

Directives and event handlers are removed wherever a blank and their name stand, in the value of an
attribute as well. The patterns for them begin with blanks, so a text is looked at word by word, each
with the blank before it (`replaceAll_lined`): words that begin like a directive (`isDirective`) or
like an event handler (`isEvent`) are dropped with their blank, and all others stay.
-/

namespace BlockMarkup.Markup

open BlockMarkup.Regex (CharSet Cursor Eats Refuses Rewrites Silent)
open BlockMarkup.Regex.Cursor (spot)
open Token (yields_char)

variable {r : Regex} {before rest w : List Char} {ws : List (List Char)}

/-! ## Class tokens -/

/-- The characters of class names: letters, digits, underscores and hyphens. -/
def isTokenChar (c : Char) : Bool := c.isAlphanum || c == '_' || c == '-'

theorem toNat_of_isTokenChar {c : Char} (h : isTokenChar c = true) :
    c.toNat = 45 ∨ c.toNat = 95 ∨ (48 ≤ c.toNat ∧ c.toNat ≤ 57) ∨ (65 ≤ c.toNat ∧ c.toNat ≤ 90) ∨
      (97 ≤ c.toNat ∧ c.toNat ≤ 122) := by
  have hcode : ((((decide (65 ≤ c.val ∧ c.val ≤ 90) || (decide (97 ≤ c.val) && decide (c.val ≤ 122))) ||
      (decide (48 ≤ c.val) && decide (c.val ≤ 57))) || c == '_') || c == '-') = true := h
  simp only [Bool.or_eq_true, Bool.and_eq_true, decide_eq_true_eq, beq_iff_eq,
    UInt32.le_iff_toNat_le] at hcode
  rcases hcode with (((h | h) | h) | rfl) | rfl
  · exact .inr (.inr (.inr (.inl h)))
  · exact .inr (.inr (.inr (.inr h)))
  · exact .inr (.inr (.inl h))
  · exact .inr (.inl rfl)
  · exact .inl rfl

theorem isBlank_of_isTokenChar {c : Char} (h : isTokenChar c = true) : Text.isBlank c = false := by
  have hcode := toNat_of_isTokenChar h
  simp [Text.isBlank]
  omega

/-- The characters that names in patterns go on with. -/
def wordSet : CharSet := (CharSet.ofKind .word).or (.single '-')

theorem wordSet_of_isTokenChar {c : Char} (h : isTokenChar c = true) : wordSet.contains c = true := by
  have hcode := toNat_of_isTokenChar h
  have hascii : c.toNat < 128 := by omega
  simp only [isTokenChar, Bool.or_eq_true, beq_iff_eq] at h
  simp only [wordSet, CharSet.or, CharSet.ofKind, CharSet.single, CharSet.contains, List.cons_append,
    List.nil_append, List.any_cons, List.any_nil, Regex.SetItem.covers, Regex.CharKind.holds,
    Text.isWordChar, Text.isAlphanumeric, Regex.CaseRule.variants]
  rcases h with (h | rfl) | rfl
  · simp [hascii, h]
  · rfl
  · rfl

/-- A class token. -/
structure IsToken (t : List Char) : Prop where
  ne_nil : t ≠ []
  mem : ∀ c ∈ t, isTokenChar c = true

instance (t : List Char) : Decidable (IsToken t) :=
  decidable_of_iff (t ≠ [] ∧ t.all isTokenChar = true)
    ⟨fun h => ⟨h.1, List.all_eq_true.mp h.2⟩, fun h => ⟨h.ne_nil, List.all_eq_true.mpr h.mem⟩⟩

theorem IsToken.not_mem {t : List Char} (h : IsToken t) {c : Char} (hc : isTokenChar c = false) :
    c ∉ t := by
  intro hmem
  rw [h.mem c hmem] at hc
  cases hc

/-- Whether a word is taken for a directive. Those with a colon or a mark before their name are not among
the words of class tokens. -/
def isDirective : List Char → Bool
  | 'v' :: '-' :: _ :: _ => true
  | _ => false

/-- Whether a word is taken for an event handler. -/
def isEvent : List Char → Bool
  | 'o' :: 'n' :: c :: _ => (CharSet.between 'A' 'Z').contains c
  | _ => false

/-! ## Text in words -/

/-- Words, each behind a blank. -/
def lined (ws : List (List Char)) : List Char := ws.flatMap (' ' :: ·)

theorem lined_cons : lined (w :: ws) = ' ' :: (w ++ lined ws) := rfl

/-- What stands behind a word begins with a blank or a quote. -/
def EndsWord (rest : List Char) : Prop := ∃ c, rest.head? = some c ∧ c ∈ [' ', '"', '\'']

/-- Neither a blank nor a quote goes on with a name. -/
theorem not_wordSet_of_mem {c : Char} (h : c ∈ [' ', '"', '\'']) : wordSet.contains c = false := by
  simp only [List.mem_cons, List.not_mem_nil, or_false] at h
  rcases h with rfl | rfl | rfl <;> decide

/-- Three characters that do not end a word are in the word if they are at its start. -/
theorem EndsWord.exists_word {a b c : Char} {tail : List Char} (h : EndsWord rest) (hne : w ≠ [])
    (heq : w ++ rest = a :: b :: c :: tail) (hb : b ∉ [' ', '"', '\''])
    (hc : c ∉ [' ', '"', '\'']) : ∃ w', w = a :: b :: c :: w' := by
  obtain ⟨d, hd, hmem⟩ := h
  match w, hne with
  | [_], _ =>
    have hrest : rest = b :: c :: tail := (List.cons.inj heq).2
    rw [hrest] at hd
    cases hd
    exact absurd hmem hb
  | [_, _], _ =>
    have hrest : rest = c :: tail := (List.cons.inj (List.cons.inj heq).2).2
    rw [hrest] at hd
    cases hd
    exact absurd hmem hc
  | x :: y :: z :: w', _ =>
    obtain ⟨rfl, hxs⟩ := List.cons.inj heq
    obtain ⟨rfl, hys⟩ := List.cons.inj hxs
    obtain ⟨rfl, -⟩ := List.cons.inj hys
    exact ⟨w', rfl⟩

/-- A sign that is not in the word does not stand behind characters that do not end one. -/
theorem EndsWord.ne_append (h : EndsWord rest) {c : Char} {x y : List Char} (hw : c ∉ w)
    (hc : c ∉ [' ', '"', '\'']) (hx : ∀ d ∈ [' ', '"', '\''], d ∉ x) : w ++ rest ≠ x ++ c :: y := by
  obtain ⟨d, hd, hmem⟩ := h
  obtain ⟨rest, rfl⟩ := List.head?_eq_some_iff.mp hd
  intro heq
  rcases List.append_eq_append_iff.mp heq with ⟨z, hlong, hrest⟩ | ⟨z, hshort, hrest⟩
  · cases z with
    | nil =>
      obtain ⟨rfl, -⟩ := List.cons.inj hrest
      exact hc hmem
    | cons e z =>
      obtain ⟨rfl, -⟩ := List.cons.inj hrest
      exact hx d hmem (by rw [hlong]; simp)
  · cases z with
    | nil =>
      obtain ⟨rfl, -⟩ := List.cons.inj hrest
      exact hc hmem
    | cons e z =>
      obtain ⟨rfl, -⟩ := List.cons.inj hrest
      exact hw (by rw [hshort]; simp)

theorem EndsWord.lined (h : EndsWord rest) (ws : List (List Char)) : EndsWord (lined ws ++ rest) := by
  cases ws with
  | nil => exact h
  | cons w ws => exact ⟨' ', rfl, by simp⟩

/-- The pattern does not match where no blank stands. -/
def BeginsBlank (r : Regex) : Prop :=
  ∀ s : Cursor, (∀ c, s.after.head? = some c → Text.isBlank c = false) → Refuses (Regex.run r) s

theorem BeginsBlank.seq {b : Regex} (h : BeginsBlank r) : BeginsBlank (.seq r b) :=
  fun s hs => (h s hs).seq

theorem beginsBlank_span {least : Nat} {most : Option Nat} (h : 0 < least) :
    BeginsBlank (.span (.ofKind .blank) least most .greedy) := by
  intro s hs
  refine Regex.refuses_of_yields (Regex.yields_span_least _ _ _ _) ?_
  rintro u ⟨cs, hafter, hle, hcs⟩
  obtain ⟨c, cs, rfl⟩ := List.exists_cons_of_length_pos (Nat.lt_of_lt_of_le h hle)
  have hblank := hcs c List.mem_cons_self
  rw [CharSet.contains_blank, hs c (by rw [hafter]; rfl)] at hblank
  cases hblank

theorem BeginsBlank.silent (h : BeginsBlank r) {cs : List Char}
    (hcs : ∀ c ∈ cs, Text.isBlank c = false) : Silent r before cs rest := by
  rintro p c q rfl
  refine h _ (fun d hd => ?_) some
  cases hd
  exact hcs c (by simp)

theorem BeginsBlank.rewrites (h : BeginsBlank r) {f : Regex.Match → List Char} {cs : List Char}
    (hcs : ∀ c ∈ cs, Text.isBlank c = false) : Rewrites r f before cs cs := by
  have hend : Rewrites r f (cs.reverse ++ before) [] [] := .nil (h _ (fun c hc => by cases hc) some)
  have hskips := Rewrites.skips (h.silent hcs) hend
  rwa [List.append_nil] at hskips

/-- Replacing goes from word to word: the words of one kind are replaced by nothing, the others
stay. -/
theorem replaceAll_lined {f : Regex.Match → List Char} {drop : List Char → Bool} {pre post : List Char}
    (hr : BeginsBlank r) (hpre : ∀ c ∈ pre, Text.isBlank c = false)
    (hpost : ∀ c ∈ post, Text.isBlank c = false)
    (hws : ∀ w ∈ ws, ∀ c ∈ w, Text.isBlank c = false)
    (hits : ∀ w ws', w :: ws' <:+ ws → drop w = true → ∀ before,
      Eats r (' ' :: w) before (lined ws' ++ post) [] [] ∧ ∀ m, f m = [])
    (misses : ∀ w ws', w :: ws' <:+ ws → drop w = false → ∀ before,
      Regex.run r (spot before (' ' :: (w ++ (lined ws' ++ post))) []) some = none) :
    r.replaceAll f (pre ++ (lined ws ++ post)) = pre ++ (lined (ws.filter fun w => !drop w) ++ post) := by
  have hlined : ∀ before, Rewrites r f before (lined ws ++ post)
      (lined (ws.filter fun w => !drop w) ++ post) := by
    -- for any text before, since the words that are dropped stay behind the cursor
    induction ws with
    | nil =>
      exact fun before => hr.rewrites hpost
    | cons w ws ih =>
      intro before
      have hgoes := ih (fun v hv => hws v (List.mem_cons_of_mem _ hv))
        (fun v ws' h => hits v ws' (h.trans (List.suffix_cons _ _)))
        (fun v ws' h => misses v ws' (h.trans (List.suffix_cons _ _)))
        ((' ' :: w).reverse ++ before)
      cases hdrop : drop w with
      | true =>
        obtain ⟨heats, hnothing⟩ := hits w ws (List.suffix_refl _) hdrop before
        have hhit := Rewrites.hit (f := f) (by simp) (heats some _ rfl) hgoes
        rw [hnothing] at hhit
        rw [List.filter_cons_of_neg (by simp [hdrop]), lined_cons, List.cons_append,
          List.append_assoc]
        exact hhit
      | false =>
        have hblank := misses w ws (List.suffix_refl _) hdrop before
        have hword : Silent r (' ' :: before) w (lined ws ++ post) :=
          hr.silent (hws w List.mem_cons_self)
        rw [List.reverse_cons, List.append_assoc] at hgoes
        rw [List.filter_cons_of_pos (by simp [hdrop]), lined_cons, lined_cons, List.cons_append,
          List.append_assoc, List.cons_append, List.append_assoc]
        exact .skip hblank (Rewrites.skips hword hgoes)
  exact Regex.replaceAll_append_of_rewrites (hr.silent hpre) (hlined _)

/-! ## Words at which nothing matches -/

/-- A word in a tag: its beginning, a part of an attribute, or one without a value. -/
structure IsTagWord (w : List Char) : Prop where
  ne_nil : w ≠ []
  blank : ∀ c ∈ w, Text.isBlank c = false
  marks : ':' ∉ w ∧ '@' ∉ w ∧ '#' ∉ w
  sign : w.head? = some 'd' → '=' ∉ w

theorem IsToken.isTagWord (h : IsToken w) : IsTagWord w :=
  ⟨h.ne_nil, fun c hc => isBlank_of_isTokenChar (h.mem c hc),
    ⟨h.not_mem (by decide), h.not_mem (by decide), h.not_mem (by decide)⟩,
    fun _ => h.not_mem (by decide)⟩

/-- The blank before a word is all that a run of blanks finds. -/
theorem refuses_behind_blank {b : Regex} {least : Nat} {most : Option Nat}
    {groups : List (Nat × Regex.Capture)} (hw : IsTagWord w) (hleast : 0 < least)
    (h : ∀ u : Cursor, u.after = w ++ rest → least ≤ 1 → Refuses (Regex.run b) u) :
    Refuses (Regex.run (.seq (.span (.ofKind .blank) least most .greedy) b))
      (spot before (' ' :: (w ++ rest)) groups) := by
  refine Regex.refuses_seq_of_yields (Regex.yields_span_least _ _ _ _) ?_
  rintro u ⟨bl, hafter, hle, hbl⟩
  obtain ⟨c, w', rfl⟩ := List.exists_cons_of_ne_nil hw.ne_nil
  -- one blank leads to the word, and a second one would have to be the first letter of the word
  match bl, hle with
  | [], hle => exact absurd (Nat.lt_of_lt_of_le hleast hle) (Nat.lt_irrefl _)
  | [_], hle => exact h u (List.cons.inj hafter).2.symm hle
  | _ :: d :: _, _ =>
    have hd : c = d := (List.cons.inj (List.cons.inj hafter).2).1
    have hblank := hbl d (by simp)
    rw [CharSet.contains_blank, ← hd, hw.blank c List.mem_cons_self] at hblank
    cases hblank

theorem run_wideBlank (hw : IsTagWord w) :
    Regex.run Pattern.wideBlank (spot before (' ' :: (w ++ rest)) []) some = none := by
  have hnone : Refuses (Regex.run (.seq Pattern.wideBlank .empty))
      (spot before (' ' :: (w ++ rest)) []) :=
    refuses_behind_blank hw (by decide) fun _ _ hle => absurd hle (by decide)
  exact hnone some

theorem run_rawContent (hw : IsTagWord w) (hrest : EndsWord rest) :
    Regex.run Pattern.rawContent (spot before (' ' :: (w ++ rest)) []) some = none := by
  refine refuses_behind_blank hw (by decide) (b := .seq (.text "dangerouslySetInnerHTML=") _)
    (fun u hu _ => Refuses.seq ?_) some
  -- what begins like the attribute has no sign for a value
  refine Regex.refuses_of_yields Regex.yields_text fun v hv => ?_
  have hsplit : w ++ rest = "dangerouslySetInnerHTML".toList ++ '=' :: v.after := hu.symm.trans hv
  have hhead : w.head? = some 'd' := by
    obtain ⟨c, w', rfl⟩ := List.exists_cons_of_ne_nil hw.ne_nil
    exact congrArg some (List.cons.inj hsplit).1
  exact hrest.ne_append (hw.sign hhead) (by decide) (by simp) hsplit

/-- The directives with a known word before a colon. -/
def keyedDirective : Regex :=
  .oneOf (["on", "bind", "class", "use", "transition", "in", "out", "animate", "let", "client",
    "set"].map .text) ++ Pattern.char ':' ++ Pattern.nameChars

/-- The directives with a mark before their name. -/
def markedDirective : Regex := .one (.ofList [':', '@', '#']) ++ Pattern.nameChars

theorem refuses_keyedDirective (hw : ':' ∉ w) (hrest : EndsWord rest) {s : Cursor}
    (hs : s.after = w ++ rest) : Refuses (Regex.run keyedDirective) s := by
  have hmarks : Regex.avoids [' ', '"', '\''] (.oneOf (["on", "bind", "class", "use", "transition",
      "in", "out", "animate", "let", "client", "set"].map .text)) = true := by decide
  refine Refuses.seq (Regex.refuses_of_yields ((Regex.yields_avoids hmarks).seq (yields_char ':')) ?_)
  rintro u ⟨v, ⟨x, hafter, hx⟩, hcolon⟩
  rw [hs, hcolon] at hafter
  exact hrest.ne_append hw (by decide) hx hafter

theorem refuses_vDirective (hw : IsTagWord w) (hrest : EndsWord rest) (h : isDirective w = false)
    {s : Cursor} (hs : s.after = w ++ rest) :
    Refuses (Regex.run (.text "v-" ++ Pattern.nameChars)) s := by
  refine Regex.refuses_of_yields (Regex.yields_text.seq (Regex.yields_span_least _ _ _ _)) ?_
  rintro u ⟨v, htext, cs, hcs, hle, hset⟩
  obtain ⟨c, cs, rfl⟩ := List.exists_cons_of_length_pos hle
  rw [hs, hcs] at htext
  have hbegins : w ++ rest = 'v' :: '-' :: c :: (cs ++ u.after) := htext
  obtain ⟨w', rfl⟩ := hrest.exists_word hw.ne_nil hbegins (by decide) fun hmem => by
    have hname : wordSet.contains c = true := hset c List.mem_cons_self
    rw [not_wordSet_of_mem hmem] at hname
    cases hname
  cases h

theorem refuses_markedDirective (hw : IsTagWord w) {s : Cursor} (hs : s.after = w ++ rest) :
    Refuses (Regex.run markedDirective) s := by
  refine Refuses.seq (Regex.refuses_one fun c hc => ?_)
  obtain ⟨d, w', rfl⟩ := List.exists_cons_of_ne_nil hw.ne_nil
  rw [hs] at hc
  cases hc
  obtain ⟨hcolon, hat, hsharp⟩ := hw.marks
  rw [List.mem_cons, not_or] at hcolon hat hsharp
  rw [CharSet.contains_ofList]
  simp [Ne.symm hcolon.1, Ne.symm hat.1, Ne.symm hsharp.1]

theorem run_directive (hw : IsTagWord w) (hrest : EndsWord rest) (h : isDirective w = false) :
    Regex.run Pattern.directive (spot before (' ' :: (w ++ rest)) []) some = none := by
  refine Refuses.seq (refuses_behind_blank hw (by decide) fun u hu _ => ?_) some
  exact (refuses_keyedDirective hw.marks.1 hrest hu).alt
    ((refuses_vDirective hw hrest h hu).alt (refuses_markedDirective hw hu))

theorem run_eventHandler (hw : IsTagWord w) (hrest : EndsWord rest) (h : isEvent w = false) :
    Regex.run Pattern.eventHandler (spot before (' ' :: (w ++ rest)) []) some = none := by
  refine Refuses.seq (Refuses.seq (refuses_behind_blank hw (by decide)
    (b := .seq (.text "on") (.one (.between 'A' 'Z'))) fun u hu _ => ?_)) some
  refine Regex.refuses_of_yields (Regex.yields_text.seq (Regex.yields_one _)) ?_
  rintro t ⟨v, htext, c, hc, hcs, -⟩
  rw [hu, hcs] at htext
  have hbegins : w ++ rest = 'o' :: 'n' :: c :: t.after := htext
  obtain ⟨w', rfl⟩ := hrest.exists_word hw.ne_nil hbegins (by decide) fun hmem => by
    simp only [List.mem_cons, List.not_mem_nil, or_false] at hmem
    rcases hmem with rfl | rfl | rfl <;> exact absurd hc (by decide)
  rw [isEvent, hc] at h
  cases h

/-! ## Words that are dropped -/

section Dropped

variable {groups : List (Nat × Regex.Capture)}

theorem eats_someBlanks (hrest : ∀ c, rest.head? = some c → Text.isBlank c = false) :
    Eats Pattern.someBlanks [' '] before rest groups groups :=
  Regex.eats_span (by simp [CharSet.contains_blank]; decide) (Nat.le_refl _) rfl
    fun c hc => CharSet.contains_blank.trans (hrest c hc)

theorem EndsWord.not_wordSet (h : EndsWord rest) {c : Char} (hc : rest.head? = some c) :
    wordSet.contains c = false := by
  obtain ⟨d, hd, hmem⟩ := h
  cases hc.symm.trans hd
  exact not_wordSet_of_mem hmem

theorem eats_optionalValue (h : EndsWord rest) :
    Eats Pattern.optionalValue [] before rest groups groups := by
  refine Eats.alt_right (Refuses.seq (refuses_char fun c hc => ?_)) Regex.eats_empty
  obtain ⟨d, hd, hmem⟩ := h
  rw [List.nil_append] at hc
  cases hc.symm.trans hd
  rintro rfl
  simp at hmem

/-- A directive is dropped as a whole. -/
theorem eats_directive (hw : IsToken w) (hrest : EndsWord rest) (h : isDirective w = true) :
    Eats Pattern.directive (' ' :: w) before rest [] [] := by
  obtain ⟨c, cs, rfl⟩ : ∃ c cs, w = 'v' :: '-' :: c :: cs := by
    unfold isDirective at h
    split at h
    · exact ⟨_, _, rfl⟩
    · cases h
  have hname : Eats Pattern.nameChars (c :: cs) ("v-".toList.reverse ++ (' ' :: before)) rest [] [] :=
    Regex.eats_span (fun d hd => wordSet_of_isTokenChar (hw.mem d (by simp [hd]))) (by simp) rfl
      fun d hd => hrest.not_wordSet hd
  have hv : Eats (.text "v-" ++ Pattern.nameChars) ("v-".toList ++ (c :: cs)) (' ' :: before) rest
      [] [] :=
    Regex.eats_text.seq hname
  -- the directives with a known word are tried first
  have hkeyed := refuses_keyedDirective (s := spot (' ' :: before) (("v-".toList ++ (c :: cs)) ++ rest) [])
    (hw.not_mem (by decide)) hrest rfl
  have hone : Eats (.alt keyedDirective (.alt (.text "v-" ++ Pattern.nameChars) markedDirective))
      ("v-".toList ++ (c :: cs)) (' ' :: before) rest [] [] :=
    Eats.alt_right hkeyed hv.alt_left
  have hblank : Eats Pattern.someBlanks [' '] before (("v-".toList ++ (c :: cs)) ++ rest) [] [] :=
    eats_someBlanks fun d hd => by
      cases hd
      decide
  have hmatch : Eats Pattern.directive (([' '] ++ ("v-".toList ++ (c :: cs))) ++ []) before rest
      [] [] :=
    (hblank.seq hone).seq_nil (eats_optionalValue hrest)
  rwa [List.append_nil] at hmatch

/-- An event handler is dropped as a whole. -/
theorem eats_eventHandler (hw : IsToken w) (hrest : EndsWord rest) (h : isEvent w = true) :
    Eats Pattern.eventHandler (' ' :: w) before rest [] [] := by
  obtain ⟨c, cs, rfl, hc⟩ : ∃ c cs, w = 'o' :: 'n' :: c :: cs ∧
      (CharSet.between 'A' 'Z').contains c = true := by
    unfold isEvent at h
    split at h
    · exact ⟨_, _, rfl, h⟩
    · cases h
  have hblank : Eats Pattern.someBlanks [' '] before ("on".toList ++ ([c] ++ (cs ++ rest))) [] [] :=
    eats_someBlanks fun d hd => by
      cases hd
      decide
  have hname : Eats (.many wordSet) cs ([c].reverse ++ ("on".toList.reverse ++ (' ' :: before))) rest
      [] [] :=
    Regex.eats_many (fun d hd => wordSet_of_isTokenChar (hw.mem d (by simp [hd])))
      fun d hd => hrest.not_wordSet hd
  have hmatch : Eats Pattern.eventHandler (((([' '] ++ "on".toList) ++ [c]) ++ cs) ++ []) before rest
      [] [] :=
    (((hblank.seq Regex.eats_text).seq (Regex.eats_one hc)).seq hname).seq_nil
      (eats_optionalValue hrest)
  simpa using hmatch

end Dropped

end BlockMarkup.Markup
