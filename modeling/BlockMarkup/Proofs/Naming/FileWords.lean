import BlockMarkup.Proofs.Naming.CaseWords
import BlockMarkup.Proofs.Naming.ModifierPrefix

/-! # The words of Blocks in file names

A Block is cut into the words that its word case puts together (`blockWords_of_isBlock`): those between
separators, or those that begin with a capital, where a row of capitals is one word. A file name joins the
words in small letters (`toList_format`). If it joins them in the word case that the Block is written in,
it has the same words again, letter case aside (`lowerWords_format`).
-/

namespace BlockMarkup

open NamePattern (Joins Begins IsLowerWord)
open Text (isBlank wordsFrom wordsOf)

variable {case : WordCase} {sep : Char} {name : String} {s body w : List Char} {ws : List (List Char)}

namespace FileName

/-! ## Words of a text -/

/-- The words of a text, as they stand in it. -/
def wordsIn (s : List Char) : List (List Char) := wordsOf (breakCase (breakMarks s))

/-- The words of a name in small letters. -/
def lowerWords (name : String) : List String := (splitWords name).map Text.lower

/-- These words as lists of characters. -/
def lowerLists (name : String) : List (List Char) := (wordsIn name.toList).map (·.map Char.toLower)

/-- Words of letters and digits. -/
def Alphanumeric (ws : List (List Char)) : Prop := ∀ w ∈ ws, ∀ c ∈ w, c.isAlphanum = true

theorem Alphanumeric.ascii (h : Alphanumeric ws) : ∀ w ∈ ws, ∀ c ∈ w, c.toNat < 128 := by
  intro w hw c hc
  have hcode := Text.toNat_of_isAlphanum (h w hw c hc)
  omega

theorem lowerWords_eq (h : Alphanumeric (wordsIn name.toList)) :
    lowerWords name = (lowerLists name).map String.ofList := by
  have hwords : splitWords name = (wordsIn name.toList).map String.ofList := rfl
  rw [lowerWords, hwords, lowerLists, List.map_map, List.map_map]
  refine List.map_congr_left fun w hw => String.toList_injective ?_
  have hascii : ∀ c ∈ (String.ofList w).toList, c.toNat < 128 := by
    rw [String.toList_ofList]
    exact h.ascii w hw
  simp only [Function.comp_apply]
  rw [Text.toList_lower hascii, String.toList_ofList, String.toList_ofList]

/-- A line break at the end belongs to no word. -/
theorem wordsIn_of_upToBreak (h : UpToBreak body s) : wordsIn s = wordsIn body := by
  rcases h with rfl | rfl
  · rfl
  · have hwords : ∀ t word, wordsFrom word (t ++ ['\n']) = wordsFrom word t := by
      intro t
      induction t with
      | nil =>
        intro word
        cases word <;> rfl
      | cons c t ih =>
        intro word
        rw [List.cons_append, wordsFrom, wordsFrom, ih, ih]
    rw [wordsIn, breakMarks, List.map_append]
    change wordsOf (breakCase (breakMarks body ++ ['\n'])) = _
    rw [breakCase_concat rfl rfl]
    exact hwords _ []

/-- There are no separators among letters and digits. -/
theorem breakMarks_of_alphanum (h : ∀ c ∈ s, c.isAlphanum = true) : breakMarks s = s := by
  have hkeeps : ∀ c ∈ s, (if c == '-' || c == '_' then ' ' else c) = id c := by
    intro c hc
    have hmark : (c == '-' || c == '_') = false := by
      rw [Bool.or_eq_false_iff, beq_eq_false_iff_ne, beq_eq_false_iff_ne]
      constructor
      · rintro rfl
        cases h _ hc
      · rintro rfl
        cases h _ hc
    rw [hmark]
    rfl
  rw [breakMarks, List.map_congr_left hkeeps, List.map_id]

theorem wordsIn_of_alphanum (h : ∀ c ∈ s, c.isAlphanum = true) : wordsIn s = wordsOf (breakCase s) := by
  rw [wordsIn, breakMarks_of_alphanum h]

theorem isAlphanum_of_isLowerWord (h : IsLowerWord w) : ∀ c ∈ w, c.isAlphanum = true :=
  fun c hc => Text.isAlphanum_iff.mpr (Or.inr (h.2 c hc))

/-- Joined words are found again. -/
theorem wordsIn_of_joins (hsep : case.separator? = some sep) (h : Joins sep ws s) : wordsIn s = ws := by
  have hmark : (sep == '-' || sep == '_') = true := by
    cases case <;> cases hsep <;> rfl
  have hblank : breakMarks s = [' '].intercalate ws := by
    rw [← h.joined]
    cases ws with
    | nil => rfl
    | cons w ws =>
      have hkeep : ∀ v ∈ w :: ws, breakMarks v = v := fun v hv =>
        breakMarks_of_alphanum (isAlphanum_of_isLowerWord (h.word v hv))
      rw [List.forall_mem_cons] at hkeep
      have hrest : ∀ v ∈ ws, breakMarks (sep :: v) = ' ' :: v := by
        intro v hv
        rw [breakMarks, List.map_cons, if_pos hmark]
        exact congrArg _ (hkeep.2 v hv)
      rw [Text.intercalate_cons_flatMap, Text.intercalate_cons_flatMap, breakMarks, List.map_append,
        List.map_flatMap]
      exact congrArg₂ _ hkeep.1 (List.flatMap_congr hrest)
  have hsmall : ∀ c ∈ [' '].intercalate ws, c.isUpper = false := by
    intro c hc
    rcases Text.mem_of_mem_intercalate hc with hspace | ⟨w, hw, hc⟩
    · rw [List.mem_singleton.mp hspace]
      rfl
    · exact Text.isUpper_of_isLowerOrDigit ((h.word w hw).2 c hc)
  rw [wordsIn, hblank, breakCase_eq_self fun c hc => hsmall c (List.mem_of_mem_tail hc)]
  refine Text.wordsOf_intercalate fun w hw => ⟨(h.word w hw).1, fun c hc => ?_⟩
  exact Text.isBlank_of_isAlphanum (isAlphanum_of_isLowerWord (h.word w hw) c hc)

/-! ## Words of Blocks -/

/-- What the words of a Block are. -/
inductive BlockWords (case : WordCase) : List (List Char) → Prop where
  /-- Words of small letters and digits, the first one with a letter in front. -/
  | separated {sep : Char} {w : List Char} {ws : List (List Char)} (hsep : case.separator? = some sep)
      (hword : ∀ v ∈ w :: ws, IsLowerWord v) (hfirst : w.head?.any Char.isLower = true) :
      BlockWords case (w :: ws)
  /-- Words that tell each other apart, all but the first one with a capital in front. -/
  | capitals {w : List Char} {ws : List (List Char)} (hsep : case.separator? = none)
      (hword : Alphanumeric (w :: ws)) (hfirst : w.head?.any case.initial = true)
      (hfurther : ∀ v ∈ ws, v.head?.any Char.isUpper = true) (hchain : (w :: ws).IsChain EndsBefore) :
      BlockWords case (w :: ws)

theorem BlockWords.alphanumeric (h : BlockWords case ws) : Alphanumeric ws := by
  cases h with
  | separated hsep hword hfirst => exact fun v hv => isAlphanum_of_isLowerWord (hword v hv)
  | capitals hsep hword hfirst hfurther hchain => exact hword

theorem BlockWords.ne_nil (h : BlockWords case ws) : ws ≠ [] := by
  cases h <;> exact List.cons_ne_nil _ _

theorem BlockWords.word_ne_nil (h : BlockWords case ws) : ∀ w ∈ ws, w ≠ [] := by
  cases h with
  | separated hsep hword hfirst => exact fun w hw => (hword w hw).1
  | capitals hsep hword hfirst hfurther hchain =>
    rintro w hw rfl
    rcases List.mem_cons.mp hw with rfl | hw
    · cases hfirst
    · cases hfurther _ hw

/-- Behind the end of a word a capital stands. -/
theorem first_isUpper_of_chain {v : List Char} (h : (v :: ws).IsChain EndsBefore) :
    ∀ w ∈ ws, w.head?.any Char.isUpper = true := by
  induction ws generalizing v with
  | nil => simp
  | cons w ws ih =>
    rw [List.isChain_cons_cons] at h
    obtain ⟨⟨_, b, rest, _, rfl, hends⟩, hchain⟩ := h
    exact List.forall_mem_cons.mpr ⟨isUpper_of_endsBetween hends, ih hchain⟩

theorem blockWords_of_begins (hsep : case.separator? = none) (h : Begins case.initial s) :
    BlockWords case (wordsIn s) := by
  obtain ⟨c, s, rfl⟩ := List.exists_cons_of_ne_nil h.ne_nil
  have hblank : ∀ d ∈ c :: s, isBlank d = false := fun d hd => Text.isBlank_of_isAlphanum (h.alphanum d hd)
  obtain ⟨w, ws, hwords, hrest⟩ := exists_wordsOf_breakCase hblank
  have hchain := chain_wordsOf_breakCase hblank
  rw [wordsIn_of_alphanum h.alphanum, hwords]
  rw [hwords] at hchain
  refine .capitals hsep (fun v hv d hd => ?_) h.first (first_isUpper_of_chain hchain) hchain
  have hmem : d ∈ ((c :: w) :: ws).flatten := List.mem_flatten.mpr ⟨v, hv, hd⟩
  rw [List.flatten_cons, List.cons_append, hrest] at hmem
  exact h.alphanum d hmem

theorem blockWords_of_joins (hsep : case.separator? = some sep) (h : Joins sep ws s) (hws : 2 ≤ ws.length)
    (hfirst : ∃ w ∈ ws.head?, w.head?.any Char.isLower = true) : BlockWords case (wordsIn s) := by
  rw [wordsIn_of_joins hsep h]
  obtain ⟨w, hw, hlower⟩ := hfirst
  obtain ⟨ws, rfl⟩ := List.head?_eq_some_iff.mp hw
  exact .separated hsep h.word hlower

/-- A Block is made of such words. -/
theorem blockWords_of_isBlock {n : NamingOptions} (hcustom : n.custom.block = none)
    (h : n.isBlock name = true) : BlockWords n.blockCase (wordsIn name.toList) := by
  obtain ⟨-, -, -, hmatches⟩ := (NamingOptions.isBlock_iff hcustom).mp h
  obtain ⟨body, hshape, hbody⟩ := NamePattern.matchesName_block_shape.mp hmatches
  rw [wordsIn_of_upToBreak hbody]
  cases hsep : n.blockCase.separator? with
  | some sep =>
    obtain ⟨words, hwords, hleast, -, hfirst⟩ := (WordCase.blockShape_of_separator hsep).mp hshape
    exact blockWords_of_joins hsep hwords hleast hfirst
  | none => exact blockWords_of_begins hsep ((WordCase.blockShape_of_capitals hsep).mp hshape).1

/-! ## Words put together -/

/-- A word with its first character in upper case. -/
def capital : List Char → List Char
  | [] => []
  | c :: w => c.toUpper :: w

theorem isAlphanum_of_mem_capital (h : ∀ c ∈ w, c.isAlphanum = true) :
    ∀ c ∈ capital w, c.isAlphanum = true := by
  cases w with
  | nil => exact h
  | cons d w =>
    rw [List.forall_mem_cons] at h
    exact List.forall_mem_cons.mpr ⟨Text.isAlphanum_toUpper h.1, h.2⟩

end FileName

/-- Words put together in a word case, if they are written small. -/
def WordCase.joined : WordCase → List (List Char) → List Char
  | .kebab, ws => ['-'].intercalate ws
  | .snake, ws => ['_'].intercalate ws
  | .camel, [] => []
  | .camel, w :: ws => w ++ ws.flatMap FileName.capital
  | .pascal, ws => ws.flatMap FileName.capital

namespace FileName

theorem toList_join_capitalized (h : ∀ w ∈ ws, ∀ c ∈ w, c.toNat < 128) :
    (String.join ((ws.map String.ofList).map Text.capitalized)).toList = ws.flatMap capital := by
  rw [String.toList_join, List.flatMap_map, List.flatMap_map]
  refine List.flatMap_congr fun w hw => ?_
  cases w with
  | nil => rfl
  | cons c w => exact Text.toList_capitalized String.toList_ofList (h _ hw c List.mem_cons_self)

theorem alphanumeric_map_toLower (h : Alphanumeric ws) : Alphanumeric (ws.map (·.map Char.toLower)) := by
  intro w hw c hc
  obtain ⟨v, hv, rfl⟩ := List.mem_map.mp hw
  obtain ⟨d, hd, rfl⟩ := List.mem_map.mp hc
  exact Text.isAlphanum_iff.mpr (Or.inr (Text.isLowerOrDigit_toLower (h v hv d hd)))

/-- The file name of a class joins its words in small letters. -/
theorem toList_format (hne : wordsIn name.toList ≠ []) (hws : Alphanumeric (wordsIn name.toList)) :
    (format name (FileCase.ofName case.name)).toList = case.joined (lowerLists name) := by
  obtain ⟨v, vs, hwords⟩ : ∃ v vs, lowerLists name = v :: vs :=
    List.exists_cons_of_ne_nil (by simpa [lowerLists] using hne)
  have hlower : (splitWords name).map Text.lower = (v :: vs).map String.ofList :=
    hwords ▸ lowerWords_eq hws
  have hascii : ∀ w ∈ v :: vs, ∀ c ∈ w, c.toNat < 128 := hwords ▸ (alphanumeric_map_toLower hws).ascii
  have hchars : ∀ ws : List (List Char), (ws.map String.ofList).map String.toList = ws := by
    intro ws
    have hid : String.toList ∘ String.ofList = id := funext fun _ => String.toList_ofList
    rw [List.map_map, hid, List.map_id]
  rw [hwords]
  unfold format
  rw [hlower, List.map_cons]
  cases case with
  | kebab => exact (String.toList_intercalate ..).trans (congrArg _ (hchars (v :: vs)))
  | snake => exact (String.toList_intercalate ..).trans (congrArg _ (hchars (v :: vs)))
  | camel =>
    rw [List.forall_mem_cons] at hascii
    refine String.toList_append.trans ?_
    rw [String.toList_ofList, toList_join_capitalized hascii.2]
    rfl
  | pascal => exact toList_join_capitalized hascii

/-! ## Blocks in their own word case -/

theorem capital_map_toLower (h : w.head?.any Char.isUpper = true) :
    capital (w.map Char.toLower) = recased w := by
  cases w with
  | nil => rfl
  | cons c w =>
    have hupper : c.isUpper = true := h
    rw [List.map_cons, capital, Text.toUpper_toLower hupper, recased]

theorem flatMap_capital_map_toLower (h : ∀ w ∈ ws, w.head?.any Char.isUpper = true) :
    (ws.map (·.map Char.toLower)).flatMap capital = (ws.map recased).flatten := by
  rw [List.flatMap_map, ← List.flatMap_def]
  exact List.flatMap_congr fun w hw => capital_map_toLower (h w hw)

/-- In camel and pascal case each word gets its capital back. -/
theorem joined_capitals {v : List Char} (hsep : case.separator? = none)
    (hfirst : v.head?.any case.initial = true) (hfurther : ∀ w ∈ ws, w.head?.any Char.isUpper = true) :
    case.joined ((v :: ws).map (·.map Char.toLower)) = ((v :: ws).map recased).flatten := by
  cases case with
  | kebab | snake => cases hsep
  | camel =>
    cases v with
    | nil => cases hfirst
    | cons c v =>
      have hlower : c.isLower = true := hfirst
      have hword : (c :: v).map Char.toLower = recased (c :: v) := by
        rw [List.map_cons, Text.toLower_eq_self (Text.isUpper_of_isLower hlower), recased]
      rw [List.map_cons, WordCase.joined, hword, flatMap_capital_map_toLower hfurther]
      rfl
  | pascal => exact flatMap_capital_map_toLower (List.forall_mem_cons.mpr ⟨hfirst, hfurther⟩)

theorem simple_recased (hne : w ≠ []) (h : ∀ c ∈ w, c.isAlphanum = true) : Simple (recased w) := by
  cases w with
  | nil => exact absurd rfl hne
  | cons c w =>
    rw [List.forall_mem_cons] at h
    have hsmall : ∀ d ∈ w.map Char.toLower, isLowerOrDigit d = true := by
      rw [List.forall_mem_map]
      exact fun d hd => Text.isLowerOrDigit_toLower (h.2 d hd)
    refine ⟨List.cons_ne_nil _ _, List.forall_mem_cons.mpr ⟨Text.isBlank_of_isAlphanum h.1, fun d hd => ?_⟩,
      fun d hd => Text.isUpper_of_isLowerOrDigit (hsmall d hd)⟩
    exact Text.isBlank_of_isAlphanum (Text.isAlphanum_iff.mpr (Or.inr (hsmall d hd)))

theorem alphanumeric_recased (h : Alphanumeric ws) : Alphanumeric (ws.map recased) := by
  intro w hw c hc
  obtain ⟨v, hv, rfl⟩ := List.mem_map.mp hw
  cases v with
  | nil => cases hc
  | cons d v =>
    have hword := List.forall_mem_cons.mp (h _ hv)
    rcases List.mem_cons.mp hc with rfl | hc
    · exact hword.1
    · obtain ⟨e, he, rfl⟩ := List.mem_map.mp hc
      exact Text.isAlphanum_iff.mpr (Or.inr (Text.isLowerOrDigit_toLower (hword.2 e he)))

/-- The words of a name of letters and digits are found again when they are written small behind their
first characters. -/
theorem wordsIn_flatten_recased (hws : Alphanumeric ws) (hne : ∀ w ∈ ws, w ≠ [])
    (h : ws.IsChain EndsBefore) : wordsIn (ws.map recased).flatten = ws.map recased := by
  have hflatten : ∀ c ∈ (ws.map recased).flatten, c.isAlphanum = true := by
    intro c hc
    obtain ⟨w, hw, hc⟩ := List.mem_flatten.mp hc
    exact alphanumeric_recased hws w hw c hc
  rw [wordsIn_of_alphanum hflatten]
  refine wordsOf_breakCase_flatten (fun w hw => ?_) ((List.isChain_map recased).mpr ?_)
  · obtain ⟨v, hv, rfl⟩ := List.mem_map.mp hw
    exact simple_recased (hne v hv) (hws v hv)
  · exact h.imp_of_mem_imp fun v w hv _ hends => hends.recased (hws v hv)

theorem map_toLower_of_isLowerWord (h : IsLowerWord w) : w.map Char.toLower = w :=
  Text.map_toLower_eq_self fun c hc => Text.isUpper_of_isLowerOrDigit (h.2 c hc)

theorem map_map_toLower_of_isLowerWord (h : ∀ w ∈ ws, IsLowerWord w) :
    ws.map (·.map Char.toLower) = ws := by
  have hkeeps : ∀ w ∈ ws, w.map Char.toLower = id w := fun w hw => map_toLower_of_isLowerWord (h w hw)
  rw [List.map_congr_left hkeeps, List.map_id]

/-- The words of a Block that are put together in its own word case: as they were, or with small letters
behind their first characters. -/
theorem wordsIn_joined (h : BlockWords case ws) :
    Alphanumeric (wordsIn (case.joined (ws.map (·.map Char.toLower)))) ∧
      (wordsIn (case.joined (ws.map (·.map Char.toLower)))).map (·.map Char.toLower) =
        ws.map (·.map Char.toLower) := by
  have hne := h.word_ne_nil
  cases h with
  | @separated sep w ws hsep hword hfirst =>
    have hjoins : Joins sep (w :: ws) (case.joined (w :: ws)) := by
      refine ⟨hword, ?_⟩
      cases case <;> cases hsep <;> rfl
    rw [map_map_toLower_of_isLowerWord hword, wordsIn_of_joins hsep hjoins,
      map_map_toLower_of_isLowerWord hword]
    exact ⟨fun v hv => isAlphanum_of_isLowerWord (hword v hv), rfl⟩
  | @capitals w ws hsep hword hfirst hfurther hchain =>
    rw [joined_capitals hsep hfirst hfurther, wordsIn_flatten_recased hword hne hchain]
    refine ⟨alphanumeric_recased hword, ?_⟩
    rw [List.map_map]
    exact List.map_congr_left fun v _ => map_toLower_recased v

variable {n : NamingOptions}

/-- A file name in the word case of Blocks has the same words as the Block, letter case aside. -/
theorem lowerWords_format (hcustom : n.custom.block = none) (h : n.isBlock name = true) :
    splitWords name ≠ [] ∧
      lowerWords (format name (FileCase.ofName n.blockCase.name)) = lowerWords name := by
  have hwords := blockWords_of_isBlock hcustom h
  have hformat : (format name (FileCase.ofName n.blockCase.name)).toList =
      n.blockCase.joined (lowerLists name) := toList_format hwords.ne_nil hwords.alphanumeric
  obtain ⟨halphanum, hsame⟩ := wordsIn_joined hwords
  refine ⟨fun hnil => hwords.ne_nil (List.map_eq_nil_iff.mp hnil), ?_⟩
  rw [lowerLists] at hformat
  rw [← hformat] at halphanum hsame
  rw [lowerWords_eq halphanum, lowerWords_eq hwords.alphanumeric, lowerLists, hsame, lowerLists]

/-- Rows of capitals, a single letter and digits. -/
theorem lowerWords_format_mixed_rows :
    ({ blockCase := .camel } : NamingOptions).isBlock "aBCDef2gHTML" = true ∧
      format "aBCDef2gHTML" .camel = "aBcDef2gHtml" ∧
      lowerWords "aBcDef2gHtml" = lowerWords "aBCDef2gHTML" := by
  have hblock : ({ blockCase := .camel } : NamingOptions).isBlock "aBCDef2gHTML" = true := by decide +kernel
  have hformat : format "aBCDef2gHTML" .camel = "aBcDef2gHtml" := by decide +kernel
  have hwords := (lowerWords_format (n := { blockCase := .camel }) rfl hblock).2
  exact ⟨hblock, hformat, hformat ▸ hwords⟩

end FileName

end BlockMarkup
