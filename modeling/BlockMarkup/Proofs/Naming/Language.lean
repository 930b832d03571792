import BlockMarkup.Naming.Kind
import BlockMarkup.Proofs.Regex.Language
import BlockMarkup.Proofs.Text.Words

/-! # The languages of name patterns

What the patterns for names accept, said without them: words of small letters and digits with a
separator between them (`mem_joined_iff`), and letters and digits with a capital among them
(`mem_capitals_iff`). A pattern for a whole name accepts just the names of its language, but for a line
break at the end (`matchesName_whole_iff_upToBreak`).
-/

namespace BlockMarkup

open Regex (IsRegular)

/-! ## Letters -/

namespace LetterClass

variable {c : Char}

theorem isLower_eq (c : Char) :
    c.isLower = (decide (97 ≤ c.toNat) && decide (c.toNat ≤ 122)) := rfl

theorem isUpper_eq (c : Char) : c.isUpper = decide (65 ≤ c.toNat ∧ c.toNat ≤ 90) := rfl

theorem isDigit_eq (c : Char) : c.isDigit = (decide (48 ≤ c.toNat) && decide (c.toNat ≤ 57)) := rfl

theorem isAlphanum_eq (c : Char) : c.isAlphanum = (c.isUpper || c.isLower || c.isDigit) := rfl

theorem contains_set (l : LetterClass) (c : Char) : l.set.contains c =
    l.ranges.any fun (a, b) => decide (a.toNat ≤ c.toNat) && decide (c.toNat ≤ b.toNat) := by
  have hitems : l.set.contains c =
      (l.set.items.any (Regex.SetItem.covers [c.toNat] c) != false) := rfl
  rw [hitems, Bool.bne_false, LetterClass.set, List.any_map]
  refine congrArg (List.any l.ranges) (funext fun r => ?_)
  simp [Regex.SetItem.covers]

theorem contains_lower : lower.set.contains c = c.isLower := by
  rw [contains_set, Bool.eq_iff_iff]
  simp [lower, isLower_eq]

theorem contains_upper : upper.set.contains c = c.isUpper := by
  rw [contains_set, Bool.eq_iff_iff]
  simp [upper, isUpper_eq]

theorem contains_lowerDigit : lowerDigit.set.contains c = (c.isLower || c.isDigit) := by
  rw [contains_set, Bool.eq_iff_iff]
  simp [lowerDigit, isLower_eq, isDigit_eq]

theorem contains_alphaDigit : alphaDigit.set.contains c = c.isAlphanum := by
  rw [contains_set, Bool.eq_iff_iff]
  simp [alphaDigit, isAlphanum_eq, isLower_eq, isUpper_eq, isDigit_eq]
  omega

end LetterClass

/-- The text is the given one, but for a line break that may stand behind it. -/
def UpToBreak (body s : List Char) : Prop := s = body ∨ s = body ++ ['\n']

namespace UpToBreak

variable {body s lead : List Char}

theorem isPrefix (h : UpToBreak body s) : body <+: s := by
  rcases h with rfl | rfl
  · exact List.prefix_rfl
  · exact List.prefix_append _ _

theorem eq_of_not_mem (h : UpToBreak body s) (hs : '\n' ∉ s) : s = body := by
  rcases h with rfl | rfl
  · rfl
  · exact absurd (List.mem_append_right _ List.mem_cons_self) hs

/-- Behind a text that is not empty there is the rest of it, but for the line break. -/
theorem tail (h : UpToBreak body s) (hbody : body ≠ []) : UpToBreak body.tail s.tail := by
  obtain ⟨c, body, rfl⟩ := List.exists_cons_of_ne_nil hbody
  rcases h with rfl | rfl
  · exact Or.inl rfl
  · exact Or.inr rfl

theorem append_left (h : UpToBreak body s) (lead : List Char) : UpToBreak (lead ++ body) (lead ++ s) := by
  rcases h with rfl | rfl
  · exact Or.inl rfl
  · exact Or.inr (List.append_assoc _ _ _).symm

theorem exists_append (h : UpToBreak (lead ++ body) s) : ∃ rest, s = lead ++ rest ∧ UpToBreak body rest := by
  rcases h with rfl | rfl
  · exact ⟨body, rfl, Or.inl rfl⟩
  · exact ⟨body ++ ['\n'], List.append_assoc _ _ _, Or.inr rfl⟩

/-- What a name begins with is all of the name or the beginning of what stands before the line break. -/
theorem of_isPrefix (h : UpToBreak body s) (hlead : lead <+: s) :
    UpToBreak body lead ∨ lead <+: body := by
  rcases h with rfl | rfl
  · exact Or.inr hlead
  · rcases List.prefix_concat_iff.mp hlead with rfl | hlead
    · exact Or.inl (Or.inr rfl)
    · exact Or.inr hlead

end UpToBreak

namespace NamePattern

open LetterClass

variable {p q : NamePattern} {l : LetterClass} {sep : Char} {s w : List Char} {words : List (List Char)}

/-! ## Parts of patterns -/

theorem mem_append_iff : s ∈ (p ++ q).regex.language ↔
    ∃ x ∈ p.regex.language, ∃ y ∈ q.regex.language, x ++ y = s := Regex.mem_language_seq

theorem mem_either_iff : s ∈ (p.either q).regex.language ↔
    s ∈ p.regex.language ∨ s ∈ q.regex.language := Regex.mem_language_alt

theorem mem_literal_iff {text : String} : s ∈ (literal text).regex.language ↔ s = text.toList :=
  Regex.mem_language_chars text.toList

theorem mem_once_iff : s ∈ l.once.regex.language ↔ ∃ c, l.set.contains c = true ∧ s = [c] := Iff.rfl

theorem mem_star_iff : s ∈ l.star.regex.language ↔ ∀ c ∈ s, l.set.contains c = true :=
  Regex.mem_language_many

theorem mem_separator_iff : s ∈ (separator sep).regex.language ↔ s = [sep] :=
  Regex.mem_language_chars [sep]

/-! ## Whole names -/

theorem matchesName_whole_iff_upToBreak {name : String} (hp : p.regex.IsRegular) :
    p.whole.matchesName name = true ↔ ∃ body ∈ p.regex.language, UpToBreak body name.toList := by
  have hwhole : p.whole.matchesName name = true ↔
      name.toList ∈ p.regex.language ∨ ∃ cs ∈ p.regex.language, name.toList = cs ++ ['\n'] :=
    Regex.matchesIn_whole_iff hp
  rw [hwhole]
  constructor
  · rintro (hname | ⟨cs, hcs, hname⟩)
    · exact ⟨_, hname, Or.inl rfl⟩
    · exact ⟨cs, hcs, Or.inr hname⟩
  · rintro ⟨body, hbody, hname | hname⟩
    · exact Or.inl (hname ▸ hbody)
    · exact Or.inr ⟨body, hbody, hname⟩

theorem matchesName_whole_iff {name : String} (hp : p.regex.IsRegular)
    (hname : ∀ c ∈ name.toList, Text.isBlank c = false) :
    p.whole.matchesName name = true ↔ name.toList ∈ p.regex.language := by
  rw [matchesName_whole_iff_upToBreak hp]
  constructor
  · rintro ⟨body, hbody, hbreak⟩
    -- a line break is a blank
    have hline : '\n' ∉ name.toList := by
      intro hmem
      have hblank := hname '\n' hmem
      cases hblank
    rwa [hbreak.eq_of_not_mem hline]
  · intro h
    exact ⟨_, h, Or.inl rfl⟩

/-! ## Words with a separator -/

/-- A word of small letters and digits. -/
def IsLowerWord (w : List Char) : Prop := w ≠ [] ∧ ∀ c ∈ w, (c.isLower || c.isDigit) = true

instance (w : List Char) : Decidable (IsLowerWord w) :=
  decidable_of_iff (w ≠ [] ∧ w.all (fun c => c.isLower || c.isDigit) = true) (by simp [IsLowerWord])

/-- The text is these words with the separator between them. -/
structure Joins (sep : Char) (words : List (List Char)) (s : List Char) : Prop where
  word : ∀ w ∈ words, IsLowerWord w
  joined : [sep].intercalate words = s

theorem mem_plus_iff : w ∈ lowerDigit.plus.regex.language ↔ IsLowerWord w := by
  rw [IsLowerWord]
  simp only [← contains_lowerDigit]
  exact Regex.mem_language_many1

/-- A first word that begins with a letter. -/
theorem mem_firstWord_iff : w ∈ (lower.once ++ lowerDigit.star).regex.language ↔
    IsLowerWord w ∧ w.head?.any Char.isLower = true := by
  simp only [mem_append_iff, mem_once_iff, mem_star_iff, contains_lower, contains_lowerDigit]
  constructor
  · rintro ⟨x, ⟨c, hc, rfl⟩, y, hy, rfl⟩
    exact ⟨⟨by simp, List.forall_mem_cons.mpr ⟨by rw [hc, Bool.true_or], hy⟩⟩, hc⟩
  · rintro ⟨⟨hne, hw⟩, hhead⟩
    obtain ⟨c, w, rfl⟩ := List.exists_cons_of_ne_nil hne
    exact ⟨[c], ⟨c, hhead, rfl⟩, w, (List.forall_mem_cons.mp hw).2, rfl⟩

/-- A separator and the word behind it. -/
theorem mem_separatedWord_iff : s ∈ (separator sep ++ lowerDigit.plus).regex.language ↔
    ∃ w, IsLowerWord w ∧ s = sep :: w := by
  simp only [mem_append_iff, mem_separator_iff, mem_plus_iff]
  constructor
  · rintro ⟨-, rfl, w, hw, rfl⟩
    exact ⟨w, hw, rfl⟩
  · rintro ⟨w, hw, rfl⟩
    exact ⟨[sep], rfl, w, hw, rfl⟩

/-- Words behind separators, between two bounds on their number. -/
theorem mem_times_iff {least most : Nat} :
    s ∈ ((separator sep ++ lowerDigit.plus).times least most).regex.language ↔
      ∃ ws : List (List Char), (∀ w ∈ ws, IsLowerWord w) ∧ least ≤ ws.length ∧ ws.length ≤ most ∧
        s = ws.flatMap (sep :: ·) := by
  have hloop : s ∈ ((separator sep ++ lowerDigit.plus).times least most).regex.language ↔
      ∃ parts : List (List Char), s = parts.flatten ∧ least ≤ parts.length ∧
        (some most).all (parts.length ≤ ·) = true ∧
          ∀ p ∈ parts, p ∈ (separator sep ++ lowerDigit.plus).regex.language :=
    Regex.mem_language_loop
  rw [hloop]
  constructor
  · rintro ⟨parts, rfl, hleast, hmost, hparts⟩
    have hwords : ∀ p ∈ parts, IsLowerWord p.tail ∧ sep :: p.tail = p := by
      intro p hp
      obtain ⟨w, hw, rfl⟩ := mem_separatedWord_iff.mp (hparts p hp)
      exact ⟨hw, rfl⟩
    refine ⟨parts.map List.tail, ?_, by rwa [List.length_map], ?_, ?_⟩
    · rw [List.forall_mem_map]
      exact fun p hp => (hwords p hp).1
    · rw [List.length_map]
      exact of_decide_eq_true hmost
    · rw [List.flatMap_map, List.flatMap_def, List.map_congr_left fun p hp => (hwords p hp).2,
        List.map_id']
  · rintro ⟨ws, hws, hleast, hmost, rfl⟩
    refine ⟨ws.map (sep :: ·), List.flatMap_def, by rwa [List.length_map], ?_, ?_⟩
    · rw [List.length_map]
      exact decide_eq_true hmost
    · rw [List.forall_mem_map]
      exact fun w hw => mem_separatedWord_iff.mpr ⟨w, hws w hw, rfl⟩

theorem isRegular_times {least most : Nat} (h : least ≤ most) :
    ((separator sep ++ lowerDigit.plus).times least most).regex.IsRegular := by
  refine ⟨⟨trivial, Regex.isRegular_many1 _⟩, fun hnil => ?_, decide_eq_true h, rfl⟩
  obtain ⟨w, -, hw⟩ := mem_separatedWord_iff.mp hnil
  cases hw

/-- A first word and those behind separators are words that are joined. -/
theorem mem_joined_iff {F : List Char → Prop} {least most : Nat}
    (hfirst : ∀ w, w ∈ p.regex.language ↔ IsLowerWord w ∧ F w) :
    s ∈ (p ++ (separator sep ++ lowerDigit.plus).times least most).regex.language ↔
      ∃ words, Joins sep words s ∧ least + 1 ≤ words.length ∧ words.length ≤ most + 1 ∧
        ∃ w ∈ words.head?, F w := by
  rw [mem_append_iff]
  constructor
  · rintro ⟨w, hw, y, hy, rfl⟩
    obtain ⟨ws, hws, hleast, hmost, rfl⟩ := mem_times_iff.mp hy
    obtain ⟨hword, hF⟩ := (hfirst w).mp hw
    exact ⟨w :: ws, ⟨List.forall_mem_cons.mpr ⟨hword, hws⟩, Text.intercalate_cons_flatMap sep w ws⟩,
      Nat.succ_le_succ hleast, Nat.succ_le_succ hmost, w, rfl, hF⟩
  · rintro ⟨words, ⟨hwords, rfl⟩, hleast, hmost, w, hw, hF⟩
    obtain ⟨ws, rfl⟩ := List.head?_eq_some_iff.mp hw
    rw [List.forall_mem_cons] at hwords
    exact ⟨w, (hfirst w).mpr ⟨hwords.1, hF⟩, ws.flatMap (sep :: ·),
      mem_times_iff.mpr ⟨ws, hwords.2, Nat.le_of_succ_le_succ hleast, Nat.le_of_succ_le_succ hmost, rfl⟩,
      (Text.intercalate_cons_flatMap sep w ws).symm⟩

/-! ## Words with capitals -/

/-- Letters and digits, of which the first one is of the given kind. -/
structure Begins (initial : Char → Bool) (s : List Char) : Prop where
  first : s.head?.any initial = true
  alphanum : ∀ c ∈ s, c.isAlphanum = true

instance (initial : Char → Bool) (s : List Char) : Decidable (Begins initial s) :=
  decidable_of_iff (s.head?.any initial = true ∧ s.all Char.isAlphanum = true)
    ⟨fun h => ⟨h.1, List.all_eq_true.mp h.2⟩, fun h => ⟨h.first, List.all_eq_true.mpr h.alphanum⟩⟩

theorem begins_cons {initial : Char → Bool} {c : Char} : Begins initial (c :: s) ↔
    initial c = true ∧ c.isAlphanum = true ∧ ∀ d ∈ s, d.isAlphanum = true := by
  constructor
  · exact fun h => ⟨h.first, List.forall_mem_cons.mp h.alphanum⟩
  · exact fun h => ⟨h.1, List.forall_mem_cons.mpr h.2⟩

theorem Begins.ne_nil {initial : Char → Bool} (h : Begins initial s) : s ≠ [] := by
  rintro rfl
  cases h.first

variable {initial : Char → Bool}

theorem Begins.of_isPrefix {lead : List Char} (h : Begins initial s) (hlead : lead <+: s)
    (hne : lead ≠ []) : Begins initial lead := by
  obtain ⟨c, lead, rfl⟩ := List.exists_cons_of_ne_nil hne
  obtain ⟨rest, rfl⟩ := hlead
  exact ⟨h.first, fun d hd => h.alphanum d (List.mem_append_left _ hd)⟩

theorem Begins.append {rest : List Char} (h : Begins initial s) (hrest : ∀ c ∈ rest, c.isAlphanum = true) :
    Begins initial (s ++ rest) := by
  obtain ⟨c, s, rfl⟩ := List.exists_cons_of_ne_nil h.ne_nil
  exact ⟨h.first, fun d hd => (List.mem_append.mp hd).elim (h.alphanum d) (hrest d)⟩

/-- A character of a class, and any letters and digits. -/
theorem mem_begins_iff (hl : ∀ c, l.set.contains c = initial c)
    (hinitial : ∀ c, initial c = true → c.isAlphanum = true) :
    s ∈ (l.once ++ alphaDigit.star).regex.language ↔ Begins initial s := by
  simp only [mem_append_iff, mem_once_iff, mem_star_iff, hl, contains_alphaDigit]
  constructor
  · rintro ⟨x, ⟨c, hc, rfl⟩, y, hy, rfl⟩
    exact begins_cons.mpr ⟨hc, hinitial c hc, hy⟩
  · intro h
    obtain ⟨c, s, rfl⟩ := List.exists_cons_of_ne_nil h.ne_nil
    obtain ⟨hc, -, hs⟩ := begins_cons.mp h
    exact ⟨[c], ⟨c, hc, rfl⟩, s, hs, rfl⟩

theorem isAlphanum_of_isLower {c : Char} (h : c.isLower = true) : c.isAlphanum = true := by
  simp [LetterClass.isAlphanum_eq, h]

theorem isAlphanum_of_isUpper {c : Char} (h : c.isUpper = true) : c.isAlphanum = true := by
  simp [LetterClass.isAlphanum_eq, h]

theorem mem_capitalWord_iff : s ∈ capitalWord.regex.language ↔ Begins Char.isUpper s :=
  mem_begins_iff (fun _ => contains_upper) fun _ => isAlphanum_of_isUpper

/-- Capitals may stand inside of such a word, so any number of them is one. -/
theorem mem_capitalWords_iff {most : Nat} (h : 1 ≤ most) :
    s ∈ (capitalWord.times 1 most).regex.language ↔ Begins Char.isUpper s := by
  have hloop : s ∈ (capitalWord.times 1 most).regex.language ↔
      ∃ parts : List (List Char), s = parts.flatten ∧ 1 ≤ parts.length ∧
        (some most).all (parts.length ≤ ·) = true ∧ ∀ p ∈ parts, p ∈ capitalWord.regex.language :=
    Regex.mem_language_loop
  simp only [hloop, mem_capitalWord_iff]
  constructor
  · rintro ⟨parts, rfl, hleast, -, hparts⟩
    obtain ⟨part, parts, rfl⟩ := List.exists_cons_of_length_pos hleast
    have hfirst := hparts part List.mem_cons_self
    obtain ⟨c, part, rfl⟩ := List.exists_cons_of_ne_nil hfirst.ne_nil
    refine ⟨hfirst.first, fun d hd => ?_⟩
    obtain ⟨p, hp, hd⟩ := List.mem_flatten.mp hd
    exact (hparts p hp).alphanum d hd
  · intro hs
    exact ⟨[s], by simp, Nat.le_refl _, decide_eq_true h, by simpa using hs⟩

theorem isRegular_capitalWord : capitalWord.regex.IsRegular := ⟨trivial, Regex.isRegular_many _⟩

theorem isRegular_capitalWords {most : Nat} (h : 1 ≤ most) :
    (capitalWord.times 1 most).regex.IsRegular :=
  ⟨isRegular_capitalWord, fun hnil => (mem_capitalWord_iff.mp hnil).ne_nil rfl, decide_eq_true h, rfl⟩

/-- Behind the first small letters and digits a capital begins the rest. -/
theorem mem_capitals_iff (hl : ∀ c, l.set.contains c = initial c)
    (hinitial : ∀ c, initial c = true → c.isAlphanum = true)
    (hq : ∀ s, s ∈ q.regex.language ↔ Begins Char.isUpper s) :
    s ∈ (l.once ++ lowerDigit.star ++ q).regex.language ↔
      Begins initial s ∧ ∃ c ∈ s.tail, c.isUpper = true := by
  simp only [mem_append_iff, mem_once_iff, mem_star_iff, hl, hq, contains_lowerDigit]
  constructor
  · rintro ⟨-, ⟨-, ⟨c, hc, rfl⟩, x, hx, rfl⟩, y, hy, rfl⟩
    obtain ⟨d, y, rfl⟩ := List.exists_cons_of_ne_nil hy.ne_nil
    refine ⟨begins_cons.mpr ⟨hc, hinitial c hc, fun e he => ?_⟩, d, by simp, hy.first⟩
    rcases List.mem_append.mp he with he | he
    · have hsmall := hx e he
      rw [isAlphanum_eq]
      revert hsmall
      cases e.isLower <;> cases e.isDigit <;> simp
    · exact hy.alphanum e he
  · rintro ⟨hs, d, hd, hupper⟩
    obtain ⟨c, s, rfl⟩ := List.exists_cons_of_ne_nil hs.ne_nil
    obtain ⟨hc, -, hs⟩ := begins_cons.mp hs
    -- the first capital
    obtain ⟨e, he⟩ := Option.isSome_iff_exists.mp (List.find?_isSome.mpr ⟨d, hd, hupper⟩)
    obtain ⟨heupper, x, y, hsplit, hx⟩ := List.find?_eq_some_iff_append.mp he
    have hsplit' : s = x ++ e :: y := hsplit
    subst hsplit'
    refine ⟨c :: x, ⟨[c], ⟨c, hc, rfl⟩, x, fun a ha => ?_, rfl⟩, e :: y,
      begins_cons.mpr ⟨heupper, ?_, ?_⟩, rfl⟩
    · have hsmall := hs a (List.mem_append_left _ ha)
      have hnot := hx a ha
      rw [isAlphanum_eq] at hsmall
      revert hsmall hnot
      cases a.isLower <;> cases a.isDigit <;> cases a.isUpper <;> simp
    · exact hs e (by simp)
    · exact fun a ha => hs a (by simp [ha])

end NamePattern

end BlockMarkup
