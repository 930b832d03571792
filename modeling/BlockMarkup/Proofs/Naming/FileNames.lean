import Mathlib.Data.List.SplitBy
import BlockMarkup.Proofs.Naming.FileWords

/-! # File names of different Blocks

Words in small letters can be read from the text that joins them: a separator stands between them, or each
begins with a capital, unless it has a digit in front (`unjoined_joined`). So two Blocks have the same file
name if they have the same words, letter case aside, and as a rule only then (`format_eq_format_iff`). The
capitals of a row are lost, so in camel and pascal case different Blocks may share a file name.
-/

namespace BlockMarkup

open NamePattern (Joins IsLowerWord)
open FileName (Alphanumeric BlockWords capital lowerWords splitWords wordsIn)

variable {case : WordCase} {sep : Char} {w : List Char} {ws vs : List (List Char)} {name s t : String}

/-! ## Reading joined words -/

/-- Words put together in a word case, taken apart and written small. -/
def WordCase.unjoined : WordCase → List Char → List (List Char)
  | .kebab, s => s.splitOn '-'
  | .snake, s => s.splitOn '_'
  | .camel, s | .pascal, s => (s.splitBy fun _ c => !c.isUpper).map (·.map Char.toLower)

/-- A word with a letter in front. -/
def Lettered (w : List Char) : Prop := w.head?.any Char.isAlpha = true

instance (w : List Char) : Decidable (Lettered w) := inferInstanceAs (Decidable (_ = _))

/-- Words that can be read from the text that joins them. -/
structure WordCase.Legible (case : WordCase) (ws : List (List Char)) : Prop where
  ne_nil : ws ≠ []
  word : ∀ w ∈ ws, IsLowerWord w
  lettered : case.separator? = none → ∀ w ∈ ws, Lettered w

theorem isLower_of_isAlpha {c : Char} (h : (c.isLower || c.isDigit) = true) (halpha : c.isAlpha = true) :
    c.isLower = true := by
  have hupper : c.isUpper = false := Text.isUpper_of_isLowerOrDigit h
  rwa [Text.isAlpha_eq, hupper, Bool.false_or] at halpha

theorem map_toLower_capital (h : IsLowerWord w) : (capital w).map Char.toLower = w := by
  cases w with
  | nil => rfl
  | cons c w =>
    have hsmall : ∀ d ∈ c :: w, d.isUpper = false := fun d hd => Text.isUpper_of_isLowerOrDigit (h.2 d hd)
    rw [List.forall_mem_cons] at hsmall
    rw [capital, List.map_cons, Text.toLower_toUpper hsmall.1, Text.map_toLower_eq_self hsmall.2]

theorem map_toLower_map_capital (h : ∀ w ∈ ws, IsLowerWord w) :
    (ws.map capital).map (·.map Char.toLower) = ws := by
  have hkeeps : ∀ w ∈ ws, (capital w).map Char.toLower = id w := fun w hw => map_toLower_capital (h w hw)
  rw [List.map_map]
  exact (List.map_congr_left hkeeps).trans (List.map_id ws)

/-- A small word with a letter in front gets a capital, and has no other one. -/
theorem capital_spec (h : IsLowerWord w) (hfirst : Lettered w) : capital w ≠ [] ∧
    (∀ c ∈ (capital w).tail, c.isUpper = false) ∧ (capital w).head?.any Char.isUpper = true := by
  obtain ⟨c, w, rfl⟩ := List.exists_cons_of_ne_nil h.1
  have hsmall := List.forall_mem_cons.mp h.2
  refine ⟨List.cons_ne_nil _ _, fun d hd => Text.isUpper_of_isLowerOrDigit (hsmall.2 d hd), ?_⟩
  exact Text.isUpper_toUpper (isLower_of_isAlpha hsmall.1 hfirst)

/-- Each capital begins a word. -/
theorem splitBy_flatten_capitals {ws : List (List Char)} (hne : ∀ w ∈ ws, w ≠ [])
    (hsmall : ∀ w ∈ ws, ∀ c ∈ w.tail, c.isUpper = false)
    (hfurther : ∀ w ∈ ws.tail, w.head?.any Char.isUpper = true) :
    ws.flatten.splitBy (fun _ c => !c.isUpper) = ws := by
  have hall : ∀ {α : Type} (xs : List α), xs.IsChain fun _ _ => True := fun xs =>
    (List.pairwise_of_forall fun _ _ => trivial).isChain
  refine List.splitBy_flatten (fun hnil => hne [] hnil rfl) (fun w hw => ?_) ?_
  · refine (hall w).imp_of_mem_tail_imp fun a b _ hb _ => ?_
    rw [hsmall w hw b hb]
    rfl
  · refine (hall ws).imp_of_mem_tail_imp fun v w hv hw _ => ?_
    refine ⟨hne v hv, hne w (List.mem_of_mem_tail hw), ?_⟩
    obtain ⟨c, w, rfl⟩ := List.exists_cons_of_ne_nil (hne w (List.mem_of_mem_tail hw))
    have hupper : c.isUpper = true := hfurther _ hw
    rw [List.head_cons, hupper]
    rfl

theorem unjoined_joined (h : case.Legible ws) : case.unjoined (case.joined ws) = ws := by
  cases hsep : case.separator? with
  | some sep =>
    have hmark := isWordMark_of_separator hsep
    have hsplit : ([sep].intercalate ws).splitOn sep = ws :=
      Joins.splitOn_eq ⟨h.word, rfl⟩ hmark.1 h.ne_nil
    cases case <;> cases hsep <;> exact hsplit
  | none =>
    have hlettered := h.lettered hsep
    have hcapital : ∀ v ∈ ws.map capital, v ≠ [] ∧ (∀ c ∈ v.tail, c.isUpper = false) ∧
        v.head?.any Char.isUpper = true := by
      rw [List.forall_mem_map]
      exact fun w hw => capital_spec (h.word w hw) (hlettered w hw)
    cases case with
    | kebab | snake => cases hsep
    | camel =>
      obtain ⟨w, ws, rfl⟩ := List.exists_cons_of_ne_nil h.ne_nil
      have hword := List.forall_mem_cons.mp h.word
      rw [List.map_cons, List.forall_mem_cons] at hcapital
      have hsplit : (w :: ws.map capital).flatten.splitBy (fun _ c => !c.isUpper) = w :: ws.map capital := by
        -- no capital has to stand before the first word
        refine splitBy_flatten_capitals ?_ ?_ fun v hv => (hcapital.2 v hv).2.2
        · exact List.forall_mem_cons.mpr ⟨hword.1.1, fun v hv => (hcapital.2 v hv).1⟩
        · refine List.forall_mem_cons.mpr ⟨fun c hc => ?_, fun v hv => (hcapital.2 v hv).2.1⟩
          exact Text.isUpper_of_isLowerOrDigit (hword.1.2 c (List.mem_of_mem_tail hc))
      have hflatten : WordCase.camel.joined (w :: ws) = (w :: ws.map capital).flatten := by
        rw [WordCase.joined, List.flatten_cons, List.flatMap_def]
      rw [WordCase.unjoined, hflatten, hsplit, List.map_cons, map_toLower_map_capital hword.2,
        FileName.map_toLower_of_isLowerWord hword.1]
    | pascal =>
      have hsplit : (ws.map capital).flatten.splitBy (fun _ c => !c.isUpper) = ws.map capital :=
        splitBy_flatten_capitals (fun v hv => (hcapital v hv).1) (fun v hv => (hcapital v hv).2.1)
          fun v hv => (hcapital v (List.mem_of_mem_tail hv)).2.2
      rw [WordCase.unjoined, WordCase.joined, List.flatMap_def, hsplit,
        map_toLower_map_capital h.word]

/-! ## Letters and digits -/

/-- The letters and digits of a text, written small. -/
def lettersOf (s : List Char) : List Char := (s.filter Char.isAlphanum).map Char.toLower

theorem lettersOf_append (s t : List Char) : lettersOf (s ++ t) = lettersOf s ++ lettersOf t := by
  rw [lettersOf, List.filter_append, List.map_append]
  rfl

theorem lettersOf_flatMap {f : List Char → List Char} (h : ∀ w ∈ ws, lettersOf (f w) = w) :
    lettersOf (ws.flatMap f) = ws.flatten := by
  induction ws with
  | nil => rfl
  | cons w ws ih =>
    rw [List.forall_mem_cons] at h
    rw [List.flatMap_cons, lettersOf_append, h.1, ih h.2, List.flatten_cons]

theorem lettersOf_of_isLowerWord (h : IsLowerWord w) : lettersOf w = w := by
  rw [lettersOf, List.filter_eq_self.mpr (FileName.isAlphanum_of_isLowerWord h),
    FileName.map_toLower_of_isLowerWord h]

theorem lettersOf_capital (h : IsLowerWord w) : lettersOf (capital w) = w := by
  have halphanum : ∀ c ∈ capital w, c.isAlphanum = true :=
    FileName.isAlphanum_of_mem_capital (FileName.isAlphanum_of_isLowerWord h)
  rw [lettersOf, List.filter_eq_self.mpr halphanum, map_toLower_capital h]

/-- Joining keeps the letters and digits. -/
theorem lettersOf_joined (h : ∀ w ∈ ws, IsLowerWord w) : lettersOf (case.joined ws) = ws.flatten := by
  have hseparated : ∀ sep : Char, sep.isAlphanum = false → lettersOf ([sep].intercalate ws) = ws.flatten := by
    intro sep hsep
    cases ws with
    | nil => rfl
    | cons w ws =>
      rw [List.forall_mem_cons] at h
      have hrest : ∀ v ∈ ws, lettersOf (sep :: v) = v := by
        intro v hv
        rw [lettersOf, List.filter_cons_of_neg (by simp [hsep])]
        exact lettersOf_of_isLowerWord (h.2 v hv)
      rw [Text.intercalate_cons_flatMap, lettersOf_append, lettersOf_of_isLowerWord h.1,
        lettersOf_flatMap hrest, List.flatten_cons]
  cases case with
  | kebab => exact hseparated '-' rfl
  | snake => exact hseparated '_' rfl
  | camel =>
    cases ws with
    | nil => rfl
    | cons w ws =>
      rw [List.forall_mem_cons] at h
      rw [WordCase.joined, lettersOf_append, lettersOf_of_isLowerWord h.1,
        lettersOf_flatMap fun v hv => lettersOf_capital (h.2 v hv), List.flatten_cons]
  | pascal => exact lettersOf_flatMap fun v hv => lettersOf_capital (h v hv)

/-! ## Blocks -/

namespace FileName

variable {n : NamingOptions} {fileCase : FileCase}

theorem BlockWords.isLowerWord_lower (h : BlockWords case ws) :
    ∀ w ∈ ws.map (·.map Char.toLower), IsLowerWord w := by
  rw [List.forall_mem_map]
  refine fun w hw => ⟨by simpa using h.word_ne_nil w hw, ?_⟩
  rw [List.forall_mem_map]
  exact fun c hc => Text.isLowerOrDigit_toLower (h.alphanumeric w hw c hc)

/-- Words that capitals tell apart have letters in front. -/
theorem BlockWords.lettered (h : BlockWords case ws) (hnone : case.separator? = none) :
    ∀ w ∈ ws, Lettered w := by
  cases h with
  | separated hsep hword hfirst =>
    rw [hnone] at hsep
    cases hsep
  | @capitals w ws hsep hword hfirst hfurther hchain =>
    have hletter : ∀ {v : List Char} {initial : Char → Bool}, v.head?.any initial = true →
        (∀ c, initial c = true → c.isAlpha = true) → Lettered v := by
      intro v initial hv hinitial
      obtain ⟨c, hc, hcv⟩ := Option.any_eq_true _ _ |>.mp hv
      exact Option.any_eq_true _ _ |>.mpr ⟨c, hc, hinitial c hcv⟩
    have hupper : ∀ c : Char, c.isUpper = true → c.isAlpha = true := fun c hc => by
      rw [Text.isAlpha_eq, hc, Bool.true_or]
    refine List.forall_mem_cons.mpr ⟨hletter hfirst fun c hc => ?_, fun v hv => hletter (hfurther v hv) hupper⟩
    cases case with
    | pascal => exact hupper c hc
    | kebab | snake | camel =>
      have hlower : c.isLower = true := hc
      rw [Text.isAlpha_eq, hlower, Bool.or_true]

theorem lettered_lower (h : Lettered w) : Lettered (w.map Char.toLower) := by
  cases w with
  | nil => cases h
  | cons c w =>
    have halpha : (c.isUpper || c.isLower) = true := h
    rw [Lettered, List.map_cons, List.head?_cons, Option.any_some, Text.isAlpha_eq]
    cases hupper : c.isUpper with
    | true => rw [Text.isLower_toLower hupper, Bool.or_true]
    | false => rwa [Text.toLower_eq_self hupper]

/-- Every word of the name has a letter in front. -/
def AllLettered (name : String) : Prop := ∀ w ∈ splitWords name, Lettered w.toList

theorem allLettered_iff : AllLettered name ↔ ∀ w ∈ wordsIn name.toList, Lettered w := by
  have hwords : splitWords name = (wordsIn name.toList).map String.ofList := rfl
  rw [AllLettered, hwords, List.forall_mem_map]
  simp only [String.toList_ofList]

/-- The words of both names can be told from their file names: the word case of Blocks writes no word with
a digit in front, the file names separate the words, or there are no such words. -/
def ShowsWords (n : NamingOptions) (fileCase : FileCase) (s t : String) : Prop :=
  n.blockCase.separator? = none ∨ fileCase ∈ [FileCase.kebab, .snake] ∨ AllLettered s ∧ AllLettered t

theorem exists_wordCase (h : fileCase ≠ .preserve) : ∃ case : WordCase, fileCase = FileCase.ofName case.name := by
  cases fileCase with
  | preserve => exact absurd rfl h
  | kebab => exact ⟨.kebab, rfl⟩
  | snake => exact ⟨.snake, rfl⟩
  | camel => exact ⟨.camel, rfl⟩
  | pascal => exact ⟨.pascal, rfl⟩

theorem lowerWords_inj (hs : Alphanumeric (wordsIn s.toList)) (ht : Alphanumeric (wordsIn t.toList)) :
    lowerWords s = lowerWords t ↔ lowerLists s = lowerLists t := by
  rw [lowerWords_eq hs, lowerWords_eq ht]
  exact (Function.Injective.list_map fun _ _ => String.ofList_injective).eq_iff

theorem toList_join_lowerWords (hs : Alphanumeric (wordsIn name.toList)) :
    (String.join (lowerWords name)).toList = (lowerLists name).flatten := by
  rw [lowerWords_eq hs, String.toList_join, List.flatMap_map]
  simp only [String.toList_ofList, List.flatMap_id']

/-- Whether there are words with a digit in front matters only where capitals begin the words of file
names, and not those of Blocks. -/
theorem ShowsWords.legible (h : ShowsWords n (FileCase.ofName case.name) s t)
    (hs : BlockWords n.blockCase (wordsIn s.toList)) (ht : BlockWords n.blockCase (wordsIn t.toList)) :
    case.Legible (lowerLists s) ∧ case.Legible (lowerLists t) := by
  have hlegible : ∀ {name : String}, BlockWords n.blockCase (wordsIn name.toList) →
      (case.separator? = none → ∀ w ∈ wordsIn name.toList, Lettered w) → case.Legible (lowerLists name) := by
    intro name hname hlettered
    refine ⟨by simpa [lowerLists] using hname.ne_nil, hname.isLowerWord_lower, fun hnone => ?_⟩
    rw [lowerLists, List.forall_mem_map]
    exact fun w hw => lettered_lower (hlettered hnone w hw)
  rcases h with hblock | hcase | ⟨hsl, htl⟩
  · exact ⟨hlegible hs fun _ => hs.lettered hblock, hlegible ht fun _ => ht.lettered hblock⟩
  · have hsome : case.separator? ≠ none := by
      cases case with
      | kebab | snake => exact Option.some_ne_none _
      | camel | pascal => exact absurd hcase (by decide)
    exact ⟨hlegible hs fun hnone => absurd hnone hsome, hlegible ht fun hnone => absurd hnone hsome⟩
  · exact ⟨hlegible hs fun _ => allLettered_iff.mp hsl, hlegible ht fun _ => allLettered_iff.mp htl⟩

/-- Names with the same words, when a separator joins them. -/
theorem lowerWords_eq_iff_upToBreak (hcustom : n.custom.block = none) (hs : n.isBlock s = true)
    (ht : n.isBlock t = true) (hsep : n.blockCase.separator? = some sep) :
    lowerWords s = lowerWords t ↔ ∃ body, UpToBreak body s.toList ∧ UpToBreak body t.toList := by
  have hbody : ∀ {name : String}, n.isBlock name = true →
      ∃ body, Joins sep (lowerLists name) body ∧ UpToBreak body name.toList := by
    intro name h
    obtain ⟨-, -, -, hmatches⟩ := (NamingOptions.isBlock_iff hcustom).mp h
    obtain ⟨body, hshape, hbody⟩ := NamePattern.matchesName_block_shape.mp hmatches
    obtain ⟨words, hwords, -⟩ := (WordCase.blockShape_of_separator hsep).mp hshape
    rw [lowerLists, wordsIn_of_upToBreak hbody, wordsIn_of_joins hsep hwords,
      map_map_toLower_of_isLowerWord hwords.word]
    exact ⟨body, hwords, hbody⟩
  rw [lowerWords_inj (blockWords_of_isBlock hcustom hs).alphanumeric
    (blockWords_of_isBlock hcustom ht).alphanumeric]
  constructor
  · intro h
    obtain ⟨b, hjoins, hbreak⟩ := hbody hs
    obtain ⟨b', hjoins', hbreak'⟩ := hbody ht
    rw [h] at hjoins
    obtain rfl : b = b' := hjoins.joined.symm.trans hjoins'.joined
    exact ⟨b, hbreak, hbreak'⟩
  · rintro ⟨body, hbreak, hbreak'⟩
    rw [lowerLists, lowerLists, wordsIn_of_upToBreak hbreak, wordsIn_of_upToBreak hbreak']

/-- Two Blocks have the same file name if they have the same words, letter case aside, and only then as
far as the file name shows the words; in any case they have the same letters and digits then. Where a
separator joins the words of Blocks, names with the same words are the same. -/
theorem format_eq_format_iff (hcustom : n.custom.block = none) (hs : n.isBlock s = true)
    (ht : n.isBlock t = true) :
    (format s .preserve = format t .preserve ↔ s = t) ∧
    (∀ fileCase, fileCase ≠ .preserve →
      (lowerWords s = lowerWords t → format s fileCase = format t fileCase) ∧
      (format s fileCase = format t fileCase →
        String.join (lowerWords s) = String.join (lowerWords t) ∧
          (ShowsWords n fileCase s t → lowerWords s = lowerWords t))) ∧
    (n.blockCase.separator? ≠ none →
      (lowerWords s = lowerWords t ↔ ∃ body, UpToBreak body s.toList ∧ UpToBreak body t.toList)) := by
  have hblock := blockWords_of_isBlock hcustom hs
  have hblock' := blockWords_of_isBlock hcustom ht
  refine ⟨Iff.rfl, fun fileCase hcase => ?_, fun hsep => ?_⟩
  · obtain ⟨case, rfl⟩ := exists_wordCase hcase
    have hformat : (format s (FileCase.ofName case.name)).toList = case.joined (lowerLists s) :=
      toList_format hblock.ne_nil hblock.alphanumeric
    have hformat' : (format t (FileCase.ofName case.name)).toList = case.joined (lowerLists t) :=
      toList_format hblock'.ne_nil hblock'.alphanumeric
    have hnames : format s (FileCase.ofName case.name) = format t (FileCase.ofName case.name) ↔
        case.joined (lowerLists s) = case.joined (lowerLists t) := by
      rw [← String.toList_inj, hformat, hformat']
    rw [lowerWords_inj hblock.alphanumeric hblock'.alphanumeric, hnames]
    refine ⟨congrArg _, fun heq => ⟨?_, fun hshows => ?_⟩⟩
    · have hword : ∀ w ∈ lowerLists s, IsLowerWord w := hblock.isLowerWord_lower
      have hword' : ∀ w ∈ lowerLists t, IsLowerWord w := hblock'.isLowerWord_lower
      have hletters := congrArg lettersOf heq
      rw [lettersOf_joined hword, lettersOf_joined hword'] at hletters
      rw [← String.toList_inj, toList_join_lowerWords hblock.alphanumeric,
        toList_join_lowerWords hblock'.alphanumeric, hletters]
    · obtain ⟨hlegible, hlegible'⟩ := hshows.legible hblock hblock'
      rw [← unjoined_joined hlegible, heq, unjoined_joined hlegible']
  · obtain ⟨sep, hsep⟩ := Option.ne_none_iff_exists'.mp hsep
    exact lowerWords_eq_iff_upToBreak hcustom hs ht hsep

/-- A single letter is told apart from a word that it could begin. -/
theorem format_single_letters :
    ({ blockMaxWords := 3 } : NamingOptions).isBlock "a-b-c" = true ∧
      ({ blockMaxWords := 3 } : NamingOptions).isBlock "a-bc" = true ∧
      format "a-b-c" .pascal ≠ format "a-bc" .pascal := by
  have hs : ({ blockMaxWords := 3 } : NamingOptions).isBlock "a-b-c" = true := by decide +kernel
  have ht : ({ blockMaxWords := 3 } : NamingOptions).isBlock "a-bc" = true := by decide +kernel
  have hlettered : AllLettered "a-b-c" ∧ AllLettered "a-bc" := by
    rw [allLettered_iff, allLettered_iff]
    decide +kernel
  have hwords : lowerWords "a-b-c" = ["a", "b", "c"] ∧ lowerWords "a-bc" = ["a", "bc"] := by
    decide +kernel
  refine ⟨hs, ht, fun heq => ?_⟩
  have hsame := ((format_eq_format_iff (n := { blockMaxWords := 3 }) rfl hs ht).2.1 .pascal
    (by decide)).2 heq
  have hlists := hsame.2 (.inr (.inr hlettered))
  rw [hwords.1, hwords.2] at hlists
  exact absurd hlists (by decide)

/-- Two Blocks in camel case share their file name in every file case but the one that keeps names. -/
theorem format_row_of_capitals :
    "userIDCard" ≠ "userIdCard" ∧ ∀ name ∈ ["userIDCard", "userIdCard"],
      ({ blockCase := .camel } : NamingOptions).isBlock name = true ∧
        format name .kebab = "user-id-card" ∧ format name .snake = "user_id_card" ∧
        format name .camel = "userIdCard" ∧ format name .pascal = "UserIdCard" := by
  decide +kernel

end FileName

end BlockMarkup
