import BlockMarkup.Proofs.Naming.Kinds
import BlockMarkup.Proofs.Naming.Source

/-! # The prefix of modifiers

The fixed beginnings `u-`, `-` and `_` are reserved for all names; a configured prefix of modifiers is
not. Of the names that begin with it only those are kept from Blocks and Elements that one or two words
make a modifier of, and longer ones may be Blocks. Whether the prefix is reserved after all can be told
from the prefix alone: it is no Element, no Block and not the beginning of a Block that can be too long
for a modifier (`reserves_modifierPrefix_iff`).
-/

namespace BlockMarkup

open NamePattern (Joins Begins IsLowerWord)

variable {case : WordCase} {sep : Char} {limit : Nat} {s body lead rest word : List Char}
  {words before : List (List Char)} {name : String}

/-! ## Joined words cut in two -/

namespace NamePattern

/-- The text tells which words were joined. -/
theorem Joins.splitOn_eq (h : Joins sep words s) (hsep : (sep.isLower || sep.isDigit) = false)
    (hwords : words ≠ []) : s.splitOn sep = words := by
  rw [← h.joined]
  refine List.splitOn_intercalate sep (fun w hw hmem => ?_) hwords
  rw [(h.word w hw).2 sep hmem] at hsep
  cases hsep

theorem Joins.mem (h : Joins sep words s) {c : Char} (hc : c ∈ s) :
    (c.isLower || c.isDigit) = true ∨ c = sep := by
  rw [← h.joined] at hc
  rcases Text.mem_of_mem_intercalate hc with hsep | ⟨w, hw, hc⟩
  · exact Or.inr (List.mem_singleton.mp hsep)
  · exact Or.inl ((h.word w hw).2 c hc)

/-- More words in front. -/
theorem Joins.append_left (h : Joins sep words s) (hwords : words ≠ [])
    (hbefore : ∀ w ∈ before, IsLowerWord w) :
    Joins sep (before ++ words) (before.flatMap (· ++ [sep]) ++ s) where
  word w hw := (List.mem_append.mp hw).elim (hbefore w) (h.word w)
  joined := by
    clear hbefore
    induction before with
    | nil => exact h.joined
    | cons w before ih =>
      have hne : before ++ words ≠ [] := by simp [hwords]
      rw [List.cons_append, List.intercalate_cons_of_ne_nil hne, ih, List.flatMap_cons,
        List.append_assoc, List.append_assoc, List.append_assoc]

/-- A beginning of joined words ends in one of them, possibly before its first character. -/
theorem exists_cut (hwords : words ≠ []) (h : [sep].intercalate words = lead ++ rest) :
    ∃ before v u after, words = before ++ (v ++ u) :: after ∧
      lead = before.flatMap (· ++ [sep]) ++ v ∧ rest = [sep].intercalate (u :: after) := by
  induction words generalizing lead with
  | nil => exact absurd rfl hwords
  | cons w words ih =>
    cases words with
    | nil =>
      rw [List.intercalate_singleton] at h
      exact ⟨[], lead, rest, [], by rw [h]; rfl, rfl, List.intercalate_singleton.symm⟩
    | cons w' words =>
      rw [List.intercalate_cons_cons, List.append_assoc, List.singleton_append] at h
      rcases List.append_eq_append_iff.mp h with ⟨more, rfl, hmore⟩ | ⟨u, rfl, rfl⟩
      · cases more with
        | nil =>
          -- the beginning ends where a separator follows
          refine ⟨[], w, [], w' :: words, by simp, by simp, ?_⟩
          rw [List.intercalate_cons_cons, ← List.nil_append rest, ← hmore]
          rfl
        | cons c more =>
          rw [List.cons_append, List.cons.injEq] at hmore
          obtain ⟨rfl, hmore⟩ := hmore
          obtain ⟨before, v, u, after, hcut, rfl, hrest⟩ := ih (List.cons_ne_nil _ _) hmore
          exact ⟨w :: before, v, u, after, by rw [hcut]; rfl, by simp, hrest⟩
      · refine ⟨[], lead, u, w' :: words, rfl, rfl, ?_⟩
        rw [List.intercalate_cons_cons, List.append_assoc, List.singleton_append]

/-- Where a word is cut, both sides are joined words again, unless nothing of the word is left. -/
theorem Joins.cut (h : Joins sep words (lead ++ rest)) (hwords : words ≠ []) :
    ∃ before v u after, words = before ++ (v ++ u) :: after ∧
      lead = before.flatMap (· ++ [sep]) ++ v ∧ rest = [sep].intercalate (u :: after) ∧
      (v ≠ [] → Joins sep (before ++ [v]) lead) ∧ (u ≠ [] → Joins sep (u :: after) rest) := by
  obtain ⟨before, v, u, after, rfl, hlead, hrest⟩ := exists_cut hwords h.joined
  refine ⟨before, v, u, after, rfl, hlead, hrest, fun hv => ?_, fun hu => ?_⟩
  all_goals
    have hbefore : ∀ w ∈ before, IsLowerWord w := fun w hw => h.word w (List.mem_append_left _ hw)
    have hafter := List.forall_mem_cons.mp fun w hw => h.word w (List.mem_append_right before hw)
  · have hword : IsLowerWord v := ⟨hv, fun c hc => hafter.1.2 c (List.mem_append_left _ hc)⟩
    have hlast : Joins sep [v] v := ⟨List.forall_mem_singleton.mpr hword, List.intercalate_singleton⟩
    rw [hlead]
    exact hlast.append_left (List.cons_ne_nil _ _) hbefore
  · have hword : IsLowerWord u := ⟨hu, fun c hc => hafter.1.2 c (List.mem_append_right _ hc)⟩
    exact ⟨List.forall_mem_cons.mpr ⟨hword, hafter.2⟩, hrest.symm⟩

end NamePattern

/-! ## What goes on as a modifier -/

theorem WordCase.OfWords.separator_of_digit {most : Nat} (h : case.OfWords most ('0' :: s)) :
    ∃ sep words, case.separator? = some sep ∧ Joins sep words ('0' :: s) ∧ 1 ≤ words.length ∧
      words.length ≤ most := by
  cases hsep : case.separator? with
  | some sep =>
    obtain ⟨words, hwords⟩ := (ofWords_of_separator hsep).mp h
    exact ⟨sep, words, rfl, hwords⟩
  | none =>
    have hfirst := ((ofWords_of_capitals hsep).mp h).first
    cases case <;> cases hfirst

namespace NamingOptions

variable {n : NamingOptions}

/-- Whether a modifier is made of the prefix by putting the text behind it. -/
def MakesModifier (n : NamingOptions) (rest : List Char) : Prop :=
  ∃ body, n.modifierCase.OfWords 2 body ∧ UpToBreak body rest

theorem MakesModifier.ofWords (h : n.MakesModifier rest) (hrest : '\n' ∉ rest) :
    n.modifierCase.OfWords 2 rest := by
  obtain ⟨body, hbody, hbreak⟩ := h
  rwa [hbreak.eq_of_not_mem hrest]

theorem isModifier_iff_makesModifier (hmodifier : n.custom.modifier = none) (hname : name ≠ "")
    (hsplit : name.toList = n.modifierPrefix.toList ++ rest) :
    n.isModifier name = true ↔ n.MakesModifier rest := by
  rw [isModifier, bne_iff_ne.mpr hname, Bool.true_and, modifierMatches_iff hmodifier, hsplit]
  constructor
  · rintro ⟨body, hbody, hbreak⟩
    obtain ⟨rest', hrest, hbreak⟩ := hbreak.exists_append
    rw [List.append_cancel_left hrest]
    exact ⟨body, hbody, hbreak⟩
  · rintro ⟨body, hbody, hbreak⟩
    exact ⟨body, hbody, hbreak.append_left _⟩

theorem not_makesModifier_nil : ¬ n.MakesModifier [] := by
  intro h
  exact (h.ofWords (by simp)).ne_nil rfl

/-- The number of words, joined as in Blocks, up to which any words make a modifier. -/
def modifierReach (n : NamingOptions) : Nat :=
  match n.modifierCase.separator? with
  | none => 0
  | some sep => if n.blockCase.separator? = some sep then 2 else 1

theorem modifierReach_of_same (hblock : n.blockCase.separator? = some sep)
    (hmodifier : n.modifierCase.separator? = some sep) : n.modifierReach = 2 := by
  rw [modifierReach, hmodifier]
  exact if_pos hblock

theorem modifierReach_of_other {other : Char} (hblock : n.blockCase.separator? = some sep)
    (hmodifier : n.modifierCase.separator? = some other) (hother : sep ≠ other) :
    n.modifierReach = 1 := by
  rw [modifierReach, hmodifier]
  exact if_neg fun h => hother (Option.some.inj (hblock.symm.trans h))

theorem modifierReach_of_capitals (hmodifier : n.modifierCase.separator? = none) :
    n.modifierReach = 0 := by
  rw [modifierReach, hmodifier]

theorem modifierReach_lt (hsep : n.blockCase.separator? = some sep) (h : Joins sep words rest)
    (hwords : words ≠ []) (hrest : ¬ n.modifierCase.OfWords 2 rest) : n.modifierReach < words.length := by
  have hpos : 1 ≤ words.length := List.length_pos_iff.mpr hwords
  cases hother : n.modifierCase.separator? with
  | none => rwa [modifierReach_of_capitals hother]
  | some other =>
    rw [WordCase.ofWords_of_separator hother] at hrest
    by_contra hlong
    by_cases hsame : sep = other
    · subst hsame
      rw [modifierReach_of_same hsep hother] at hlong
      exact hrest ⟨words, h, hpos, by omega⟩
    · rw [modifierReach_of_other hsep hother hsame] at hlong
      -- a single word is the same with any separator
      obtain ⟨w, rfl⟩ := List.length_eq_one_iff.mp (show words.length = 1 by omega)
      refine hrest ⟨[w], ⟨h.word, ?_⟩, hpos, by simp⟩
      rw [← h.joined, List.intercalate_singleton, List.intercalate_singleton]

/-! ## Blocks that begin with the prefix -/

/-- How the prefix of modifiers can go on as a Block. -/
inductive OpensBlock (n : NamingOptions) (lead : List Char) : Prop where
  /-- In camel and pascal case, as all Blocks begin. -/
  | capitals (hsep : n.blockCase.separator? = none) (h : Begins n.blockCase.initial lead)
  /-- A first word, with a separator to follow. Behind `u` the word has to go on, since a hyphen would
  make the name a reserved one, and then the words to come must be too many for a modifier. -/
  | firstWord (sep : Char) (hsep : n.blockCase.separator? = some sep) (hword : IsLowerWord lead)
      (hfirst : lead.head?.any Char.isLower = true)
      (hu : lead = ['u'] → sep = '-' → n.modifierReach < max 2 n.blockMaxWords)
  /-- Words up to a separator, with room for more of them than a modifier has. -/
  | words (sep : Char) (ws : List (List Char)) (hsep : n.blockCase.separator? = some sep)
      (hlead : lead = ws.flatMap (· ++ [sep])) (hword : ∀ w ∈ ws, IsLowerWord w)
      (hfirst : lead.head?.any Char.isLower = true)
      (hu : ¬ "u-".toList <+: lead)
      (hroom : ws.length + n.modifierReach < max 2 n.blockMaxWords)

/-- If what is behind the cut of a Block makes no modifier, the beginning opens a Block or is one. -/
theorem OpensBlock.of_append (h : n.blockCase.BlockShape n.blockMaxWords (lead ++ rest))
    (hlead : lead ≠ []) (hu : ¬ "u-".toList <+: lead ++ rest) (hrest : ¬ n.modifierCase.OfWords 2 rest) :
    n.blockCase.BlockShape n.blockMaxWords lead ∨ n.OpensBlock lead := by
  cases hsep : n.blockCase.separator? with
  | none =>
    obtain ⟨hbegins, -⟩ := (WordCase.blockShape_of_capitals hsep).mp h
    exact Or.inr (.capitals hsep (hbegins.of_isPrefix (List.prefix_append _ _) hlead))
  | some sep =>
    obtain ⟨words, hwords, hleast, hmost, w, hw, hletter⟩ := (WordCase.blockShape_of_separator hsep).mp h
    have hfirst : lead.head?.any Char.isLower = true := by
      rw [← hwords.head?_eq hw] at hletter
      obtain ⟨c, lead, rfl⟩ := List.exists_cons_of_ne_nil hlead
      exact hletter
    have hne : words ≠ [] := by
      rintro rfl
      cases hw
    obtain ⟨before, v, u, after, rfl, hfront, hback, hleft, hright⟩ := hwords.cut hne
    rw [List.length_append, List.length_cons] at hleast hmost
    -- the words behind the cut are too many for a modifier, if they are whole words
    have hreach : u ≠ [] → n.modifierReach < after.length + 1 := fun hu =>
      modifierReach_lt hsep (hright hu) (List.cons_ne_nil _ _) hrest
    cases v with
    | nil =>
      rw [List.append_nil] at hfront
      have hroom := hreach (hwords.word u (List.mem_append_right _ List.mem_cons_self)).1
      have hbefore : ∀ w ∈ before, IsLowerWord w := fun w hw =>
        hwords.word w (List.mem_append_left _ hw)
      refine Or.inr (.words sep before hsep hfront hbefore hfirst ?_ (by omega))
      exact fun hlead => hu (hlead.trans (List.prefix_append _ _))
    | cons c v =>
      have hjoins := hleft (List.cons_ne_nil _ _)
      cases before with
      | nil =>
        obtain rfl : lead = c :: v := hfront
        refine Or.inr (.firstWord sep hsep (hjoins.word _ List.mem_cons_self) hfirst ?_)
        rintro hword rfl
        cases u with
        | nil =>
          cases after with
          | nil => simp at hleast
          | cons w after =>
            -- the word is `u`, and a hyphen stands behind it
            refine absurd ?_ hu
            rw [hword, hback, List.intercalate_cons_cons]
            exact ⟨_, rfl⟩
        | cons d u =>
          have hroom := hreach (List.cons_ne_nil _ _)
          rw [List.length_nil] at hmost
          omega
      | cons b before =>
        refine Or.inl ((WordCase.blockShape_of_separator hsep).mpr ⟨_, hjoins, ?_, ?_, w, hw, hletter⟩)
        · simp
        · rw [List.length_append, List.length_singleton]
          omega

/-! ## How a Block goes on -/

/-- A word of one digit and `k` more of them. -/
def zeros (sep : Char) (k : Nat) : List Char := [sep].intercalate (List.replicate (k + 1) ['0'])

theorem joins_zeros (sep : Char) (k : Nat) : Joins sep (List.replicate (k + 1) ['0']) (zeros sep k) where
  word w hw := by
    rw [List.eq_of_mem_replicate hw]
    decide
  joined := rfl

theorem zeros_eq (sep : Char) (k : Nat) :
    zeros sep k = '0' :: (List.replicate k ['0']).flatMap (sep :: ·) := by
  rw [zeros, List.replicate_succ, Text.intercalate_cons_flatMap]
  rfl

theorem not_makesModifier_zeros {k : Nat} (hsep : n.blockCase.separator? = some sep)
    (hk : n.modifierReach ≤ k) : ¬ n.MakesModifier (zeros sep k) := by
  intro h
  have hmark : IsWordMark sep := isWordMark_of_separator hsep
  have hbreak : '\n' ∉ zeros sep k := by
    intro hmem
    rcases (joins_zeros sep k).mem hmem with hsmall | rfl
    · cases hsmall
    · exact hmark.2 rfl
  have hwords := h.ofWords hbreak
  rw [zeros_eq] at hwords
  obtain ⟨other, words, hother, hjoins, hleast, hmost⟩ := hwords.separator_of_digit
  rw [← zeros_eq] at hjoins
  by_cases hsame : sep = other
  · subst hsame
    -- the text has the words it was made of, and those are too many
    have hzeros := (joins_zeros sep k).splitOn_eq hmark.1 (List.cons_ne_nil _ _)
    rw [hjoins.splitOn_eq hmark.1 (List.ne_nil_of_length_pos hleast)] at hzeros
    rw [modifierReach_of_same hsep hother] at hk
    rw [hzeros, List.length_replicate] at hmost
    omega
  · -- there are two words, so the separator of Blocks stands in the text
    rw [modifierReach_of_other hsep hother hsame] at hk
    have hmany : 2 ≤ (List.replicate (k + 1) ['0']).length := by
      rw [List.length_replicate]
      omega
    have hmem : sep ∈ zeros sep k := List.mem_of_mem_tail ((joins_zeros sep k).separator_mem_tail hmany)
    rcases hjoins.mem hmem with hsmall | heq
    · rw [hmark.1] at hsmall
      cases hsmall
    · exact hsame heq

theorem not_makesModifier_capital : ¬ n.MakesModifier ['0', 'A'] := by
  intro h
  obtain ⟨sep, words, hsep, hjoins, -⟩ := (h.ofWords (by decide)).separator_of_digit
  rcases hjoins.mem (show 'A' ∈ ['0', 'A'] by decide) with hsmall | rfl
  · cases hsmall
  · cases hcase : n.modifierCase <;> rw [hcase] at hsep <;> cases hsep

theorem not_makesModifier_separator (hsep : case.separator? = some sep) :
    ¬ n.MakesModifier (sep :: s) := by
  rintro ⟨body, hbody, hbreak⟩
  obtain ⟨c, body, rfl⟩ := List.exists_cons_of_ne_nil hbody.ne_nil
  obtain rfl : sep = c := by
    rcases hbreak with h | h
    · exact (List.cons.inj h).1
    · exact (List.cons.inj h).1
  have hfirst := hbody.first_isAlphanum
  cases case with
  | kebab | snake =>
    cases hsep
    cases hfirst
  | camel | pascal => cases hsep

/-- A text and the rest of a Block, which does not make the Block a modifier or a reserved name. -/
structure CompletesBlock (n : NamingOptions) (lead rest : List Char) : Prop where
  shape : n.blockCase.BlockShape n.blockMaxWords (lead ++ rest)
  noModifier : ¬ n.MakesModifier rest
  free : reserved (String.ofList (lead ++ rest)) = false

theorem reserved_of_first_isLower (hfirst : s.head?.any Char.isLower = true)
    (hu : ¬ "u-".toList <+: s) : reserved (String.ofList s) = false := by
  have halphanum : (String.ofList s).toList.head?.any Char.isAlphanum = true := by
    rw [String.toList_ofList]
    exact WordCase.any_isAlphanum_of_initial (show s.head?.any WordCase.kebab.initial = true from hfirst)
  exact (reserved_eq_false_iff halphanum).mpr fun h => hu (by simpa using h)

/-- Behind what begins a Block of capitals, a digit and a capital. -/
theorem completesBlock_capital (hsep : n.blockCase.separator? = none)
    (h : Begins n.blockCase.initial lead) : n.CompletesBlock lead ['0', 'A'] where
  shape := by
    have hlonger : Begins n.blockCase.initial (lead ++ ['0', 'A']) := h.append (List.all_eq_true.mp rfl)
    obtain ⟨c, lead, rfl⟩ := List.exists_cons_of_ne_nil h.ne_nil
    exact (WordCase.blockShape_of_capitals hsep).mpr ⟨hlonger, 'A', by simp, rfl⟩
  noModifier := not_makesModifier_capital
  free := by
    have hname : Begins n.blockCase.initial (String.ofList (lead ++ ['0', 'A'])).toList := by
      rw [String.toList_ofList]
      exact h.append (List.all_eq_true.mp rfl)
    exact reserved_of_begins hname

/-- Behind a first word, a separator and one more word. -/
theorem completesBlock_separator (hsep : n.blockCase.separator? = some sep) (hword : IsLowerWord lead)
    (hfirst : lead.head?.any Char.isLower = true) (hu : ¬ (lead = ['u'] ∧ sep = '-')) :
    n.CompletesBlock lead [sep, '0'] where
  shape := by
    refine (WordCase.blockShape_of_separator hsep).mpr ⟨[lead, ['0']], ⟨?_, by simp⟩, by simp, ?_, lead,
      rfl, hfirst⟩
    · exact List.forall_mem_cons.mpr ⟨hword, List.forall_mem_singleton.mpr (by decide)⟩
    · exact Nat.le_max_left _ _
  noModifier := not_makesModifier_separator hsep
  free := by
    obtain ⟨c, lead, rfl⟩ := List.exists_cons_of_ne_nil hword.1
    refine reserved_of_first_isLower hfirst fun h => hu ?_
    have hbegins : ['u', '-'] <+: c :: (lead ++ [sep, '0']) := by simpa using h
    obtain ⟨rfl, hhyphen⟩ := List.cons_prefix_cons.mp hbegins
    cases lead with
    | nil => exact ⟨rfl, (List.cons_prefix_cons.mp hhyphen).1.symm⟩
    | cons d lead =>
      -- the hyphen does not stand in a word
      obtain rfl := (List.cons_prefix_cons.mp hhyphen).1
      have hsmall := hword.2 '-' (by simp)
      cases hsmall

/-- The word `u` goes on, and enough words follow. -/
theorem completesBlock_u (hsep : n.blockCase.separator? = some sep)
    (hroom : n.modifierReach < max 2 n.blockMaxWords) :
    n.CompletesBlock ['u'] (zeros sep (max 1 n.modifierReach)) where
  shape := by
    let k := max 1 n.modifierReach
    have hlength : (['u', '0'] :: List.replicate k ['0']).length = k + 1 := by
      rw [List.length_cons, List.length_replicate]
    refine (WordCase.blockShape_of_separator hsep).mpr ⟨['u', '0'] :: List.replicate k ['0'], ⟨?_, ?_⟩, ?_,
      ?_, ['u', '0'], rfl, rfl⟩
    · have hzeros : ∀ w ∈ List.replicate k ['0'], IsLowerWord w := fun w hw =>
        (joins_zeros sep k).word w (List.mem_cons_of_mem _ hw)
      exact List.forall_mem_cons.mpr ⟨by decide, hzeros⟩
    · rw [Text.intercalate_cons_flatMap, zeros_eq]
      rfl
    · omega
    · omega
  noModifier := not_makesModifier_zeros hsep (Nat.le_max_right _ _)
  free := by
    rw [zeros_eq]
    exact reserved_of_first_isLower rfl (by simp)

/-- Behind words and a separator, as many words as are needed to be no modifier. -/
theorem completesBlock_words {w : List Char} {ws : List (List Char)}
    (hsep : n.blockCase.separator? = some sep) (hword : ∀ v ∈ w :: ws, IsLowerWord v)
    (hfirst : w.head?.any Char.isLower = true) (hu : ¬ "u-".toList <+: (w :: ws).flatMap (· ++ [sep]))
    (hroom : ws.length + 1 + n.modifierReach < max 2 n.blockMaxWords) :
    n.CompletesBlock ((w :: ws).flatMap (· ++ [sep])) (zeros sep n.modifierReach) where
  shape := by
    have hjoins := (joins_zeros sep n.modifierReach).append_left (List.cons_ne_nil _ _) hword
    have hlength : (w :: ws ++ List.replicate (n.modifierReach + 1) ['0']).length =
        ws.length + 1 + (n.modifierReach + 1) := by
      rw [List.length_append, List.length_cons, List.length_replicate]
    exact (WordCase.blockShape_of_separator hsep).mpr
      ⟨_, hjoins, by omega, by omega, w, rfl, hfirst⟩
  noModifier := not_makesModifier_zeros hsep (Nat.le_refl _)
  free := by
    obtain ⟨c, w, rfl⟩ := List.exists_cons_of_ne_nil (hword w List.mem_cons_self).1
    refine reserved_of_first_isLower hfirst fun h => hu ?_
    -- the words are long enough for the hyphen of `u-` to stand among them
    refine List.prefix_of_prefix_length_le h (List.prefix_append _ _) ?_
    have htwo : "u-".toList.length = 2 := rfl
    simp only [htwo, List.flatMap_cons, List.length_append, List.length_cons, List.length_nil]
    omega

/-- Whatever opens a Block can be completed. -/
theorem OpensBlock.exists_completesBlock (h : n.OpensBlock lead) : ∃ rest, n.CompletesBlock lead rest := by
  cases h with
  | capitals hsep hbegins => exact ⟨_, completesBlock_capital hsep hbegins⟩
  | firstWord sep hsep hword hfirst hroom =>
    by_cases hu : lead = ['u'] ∧ sep = '-'
    · obtain ⟨rfl, rfl⟩ := hu
      exact ⟨_, completesBlock_u hsep (hroom rfl rfl)⟩
    · exact ⟨_, completesBlock_separator hsep hword hfirst hu⟩
  | words sep ws hsep hlead hword hfirst hu hroom =>
    subst hlead
    cases ws with
    | nil => cases hfirst
    | cons w ws =>
      have hw : w.head?.any Char.isLower = true := by
        obtain ⟨c, w, rfl⟩ := List.exists_cons_of_ne_nil (hword w List.mem_cons_self).1
        exact hfirst
      exact ⟨_, completesBlock_words hsep hword hw hu hroom⟩

theorem CompletesBlock.isBlock (h : n.CompletesBlock n.modifierPrefix.toList rest)
    (hblock : n.custom.block = none) (hmodifier : n.custom.modifier = none) (hsome : n.modifierPrefix ≠ "") :
    n.isBlock (String.ofList (n.modifierPrefix.toList ++ rest)) = true := by
  have hsplit : (String.ofList (n.modifierPrefix.toList ++ rest)).toList =
      n.modifierPrefix.toList ++ rest := String.toList_ofList
  have hname : String.ofList (n.modifierPrefix.toList ++ rest) ≠ "" := by
    intro hempty
    rw [hempty] at hsplit
    exact hsome (String.toList_eq_nil_iff.mp (List.append_eq_nil_iff.mp hsplit.symm).1)
  have hnone : n.isModifier (String.ofList (n.modifierPrefix.toList ++ rest)) = false :=
    Bool.eq_false_iff.mpr fun hmatches =>
      h.noModifier ((isModifier_iff_makesModifier hmodifier hname hsplit).mp hmatches)
  exact (isBlock_iff hblock).mpr ⟨hnone, hname, h.free,
    NamePattern.matchesName_block_shape.mpr ⟨_, h.shape, Or.inl hsplit⟩⟩

/-! ## Whether the prefix is reserved -/

/-- No Block and no Element begins like this. -/
def Reserves (n : NamingOptions) (lead : String) : Prop :=
  ∀ name : String, lead.toList <+: name.toList → n.isBlock name = false ∧ n.isElement name = false

/-- A name that begins with a reserved one is reserved. -/
theorem not_reserved_of_isPrefix {lead : String} (hname : reserved name = false)
    (hlead : lead.toList <+: name.toList) : reserved lead = false := by
  refine Bool.eq_false_iff.mpr fun h => Bool.eq_false_iff.mp hname ?_
  obtain ⟨rest, hname⟩ := hlead
  unfold reserved at h
  split at h
  case h_4 => cases h
  all_goals
    rename_i more hmore
    rw [hmore] at hname
    rw [reserved, ← hname]
    rfl

theorem isModifier_modifierPrefix (hmodifier : n.custom.modifier = none) (hsome : n.modifierPrefix ≠ "") :
    n.isModifier n.modifierPrefix = false := by
  refine Bool.eq_false_iff.mpr fun h => not_makesModifier_nil (n := n) ?_
  exact (isModifier_iff_makesModifier hmodifier hsome (List.append_nil _).symm).mp h

theorem isElement_modifierPrefix (helement : n.custom.element = none) (hmodifier : n.custom.modifier = none)
    (hsome : n.modifierPrefix ≠ "") (hlead : n.modifierPrefix.toList <+: name.toList)
    (h : n.isElement name = true) : n.isElement n.modifierPrefix = true := by
  simp only [isElement, helement, patternMatches, Bool.and_eq_true, bne_iff_ne, Bool.not_eq_true'] at h ⊢
  obtain ⟨⟨-, hreserved⟩, hmatches⟩ := h
  obtain ⟨word, hword, hbreak⟩ := NamePattern.matchesName_element_shape.mp hmatches
  refine ⟨⟨⟨hsome, isModifier_modifierPrefix hmodifier hsome⟩, ?_⟩, ?_⟩
  · exact not_reserved_of_isPrefix hreserved hlead
  · refine NamePattern.matchesName_element_shape.mpr ?_
    rcases hbreak.of_isPrefix hlead with hwhole | hpart
    · exact ⟨word, hword, hwhole⟩
    · exact ⟨_, hword.of_isPrefix hpart (by simpa using hsome), Or.inl rfl⟩

theorem isBlock_or_opensBlock (hblock : n.custom.block = none) (hmodifier : n.custom.modifier = none)
    (hsome : n.modifierPrefix ≠ "") (hlead : n.modifierPrefix.toList <+: name.toList)
    (h : n.isBlock name = true) :
    n.isBlock n.modifierPrefix = true ∨ n.OpensBlock n.modifierPrefix.toList := by
  obtain ⟨hnone, hname, hreserved, hmatches⟩ := (isBlock_iff hblock).mp h
  obtain ⟨body, hbody, hbreak⟩ := NamePattern.matchesName_block_shape.mp hmatches
  have hself : ∀ body, n.blockCase.BlockShape n.blockMaxWords body →
      UpToBreak body n.modifierPrefix.toList → n.isBlock n.modifierPrefix = true := by
    intro body hbody hbreak
    exact (isBlock_iff hblock).mpr ⟨isModifier_modifierPrefix hmodifier hsome, hsome,
      not_reserved_of_isPrefix hreserved hlead,
      NamePattern.matchesName_block_shape.mpr ⟨body, hbody, hbreak⟩⟩
  rcases hbreak.of_isPrefix hlead with hwhole | ⟨rest, rfl⟩
  · exact Or.inl (hself body hbody hwhole)
  · obtain ⟨behind, hsplit, hbehind⟩ := hbreak.exists_append
    have hrest : ¬ n.modifierCase.OfWords 2 rest := by
      intro hwords
      rw [(isModifier_iff_makesModifier hmodifier hname hsplit).mpr ⟨rest, hwords, hbehind⟩] at hnone
      cases hnone
    have hu : ¬ "u-".toList <+: n.modifierPrefix.toList ++ rest := by
      intro hu
      rw [reserved_of_isPrefix (by simp) (hu.trans hbreak.isPrefix)] at hreserved
      cases hreserved
    refine (OpensBlock.of_append hbody (by simpa using hsome) hu hrest).imp_left fun hshape => ?_
    exact hself _ hshape (Or.inl rfl)

/-- The prefix of modifiers is reserved just if it is no Block and no Element itself and opens no Block. -/
theorem reserves_modifierPrefix_iff (hblock : n.custom.block = none) (helement : n.custom.element = none)
    (hmodifier : n.custom.modifier = none) (hsome : n.modifierPrefix ≠ "") :
    n.Reserves n.modifierPrefix ↔ n.isBlock n.modifierPrefix = false ∧
      n.isElement n.modifierPrefix = false ∧ ¬ n.OpensBlock n.modifierPrefix.toList := by
  constructor
  · intro h
    obtain ⟨hisBlock, hisElement⟩ := h n.modifierPrefix List.prefix_rfl
    refine ⟨hisBlock, hisElement, fun hopens => ?_⟩
    obtain ⟨rest, hrest⟩ := hopens.exists_completesBlock
    have hlead : n.modifierPrefix.toList <+: (String.ofList (n.modifierPrefix.toList ++ rest)).toList := by
      rw [String.toList_ofList]
      exact List.prefix_append _ _
    have hlonger := hrest.isBlock hblock hmodifier hsome
    rw [(h _ hlead).1] at hlonger
    cases hlonger
  · rintro ⟨hisBlock, hisElement, hopens⟩ name hlead
    constructor
    · refine Bool.eq_false_iff.mpr fun h => ?_
      rcases isBlock_or_opensBlock hblock hmodifier hsome hlead h with hself | hself
      · rw [hisBlock] at hself
        cases hself
      · exact hopens hself
    · refine Bool.eq_false_iff.mpr fun h => ?_
      rw [isElement_modifierPrefix helement hmodifier hsome hlead h] at hisElement
      cases hisElement

/-- With four words to a Block, two are left that a modifier does not take. -/
theorem reserves_modifierPrefix_iff_long_blocks :
    ({ modifierPrefix := "is-" } : NamingOptions).Reserves "is-" ∧
      ¬ ({ modifierPrefix := "is-", blockMaxWords := 4 } : NamingOptions).Reserves "is-" := by
  constructor
  · refine (reserves_modifierPrefix_iff (n := { modifierPrefix := "is-" }) rfl rfl rfl (by decide)).mpr
      ⟨by decide +kernel, by decide +kernel, fun hopens => ?_⟩
    cases hopens with
    | capitals hsep h => cases hsep
    | firstWord sep hsep hword hfirst hu => exact absurd hword (by decide)
    | words sep ws hsep hlead hword hfirst hu hroom =>
      change ws.length + 2 < 2 at hroom
      omega
  · intro h
    obtain ⟨-, -, hopens⟩ := (reserves_modifierPrefix_iff
      (n := { modifierPrefix := "is-", blockMaxWords := 4 }) rfl rfl rfl (by decide)).mp h
    exact hopens (.words '-' [['i', 's']] rfl (by decide) (by decide) (by decide) (by decide) (by decide))

/-- A Block that begins with the prefix of modifiers. -/
theorem isBlock_modifierPrefix_long_name :
    "is-".toList <+: "is-very-long-name".toList ∧
      ({ modifierPrefix := "is-", blockMaxWords := 4 } : NamingOptions).isBlock "is-very-long-name" = true ∧
      ¬ ({ modifierPrefix := "is-", blockMaxWords := 4 } : NamingOptions).Reserves "is-" := by
  have hlead : "is-".toList <+: "is-very-long-name".toList := by decide
  have hisBlock : ({ modifierPrefix := "is-", blockMaxWords := 4 } : NamingOptions).isBlock
      "is-very-long-name" = true := by decide +kernel
  refine ⟨hlead, hisBlock, fun h => ?_⟩
  rw [(h _ hlead).1] at hisBlock
  cases hisBlock

end NamingOptions

end BlockMarkup
