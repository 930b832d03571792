import Mathlib.Tactic.Common
import BlockMarkup.Naming.FileName

/-! # Signs and letter case

The characters before the letters, such as line feeds, slashes and equals signs, have no case, and
no letter has one of them as its lower or upper case; the same holds of blanks, those beyond ASCII
included. So such a character stands in a text with mapped letters only where it stood in the text
(`Uncased.mem_of_mem_lower`), and a sign only then in the file name for a class
(`mem_of_mem_format`).
-/

namespace BlockMarkup

namespace Text

/-- No character has this code as that of its lower or upper case, itself apart. -/
def Untargeted (n : Nat) : Prop :=
  0 < n ∧ (n < 65 ∨ 122 < n) ∧ n ∉ [0x307, 0x3c2, 0x3c3] ∧
    (∀ r ∈ lowerRuns, r.target ≤ n → r.target + (r.last - r.first) < n) ∧
    (∀ r ∈ upperRuns, r.target ≤ n → r.target + (r.last - r.first) < n) ∧
    ∀ row ∈ wideUppers, n ∉ row.tail

instance (n : Nat) : Decidable (Untargeted n) := inferInstanceAs (Decidable (_ ∧ _))

/-- A character that is the lower or upper case of no other. -/
structure Uncased (d : Char) : Prop where
  eq_of_mem_lowerOf : ∀ c, d ∈ lowerOf c → c = d
  eq_of_mem_upperOf : ∀ c, d ∈ upperOf c → c = d
  ne_sigma : ∀ final : Bool, d ≠ Char.ofNat (if final then 0x3c2 else 0x3c3)

variable {c d : Char}

/-! ## Characters -/

theorem ofNat_ne {n : Nat} (hpos : 0 < d.toNat) (hn : n ≠ d.toNat) : Char.ofNat n ≠ d := by
  by_cases hvalid : n.isValidChar
  · rintro rfl
    rw [Char.ofNat, dif_pos hvalid] at hn
    exact hn rfl
  · rw [Char.ofNat, dif_neg hvalid]
    rintro rfl
    exact absurd hpos (by decide)

theorem eq_of_toLower (hd : d.toNat < 65 ∨ 122 < d.toNat) (h : c.toLower = d) : c = d := by
  delta Char.toLower at h
  split at h
  · rename_i hc
    have hge : 65 ≤ c.val.toNat := hc.1
    have hle : c.val.toNat ≤ 90 := hc.2
    have hstep : ('a'.val - 'A'.val).toNat = 32 := rfl
    rw [← h, Char.toNat_mk, UInt32.toNat_add, hstep] at hd
    omega
  · exact h

theorem eq_of_toUpper (hd : d.toNat < 65 ∨ 122 < d.toNat) (h : c.toUpper = d) : c = d := by
  delta Char.toUpper at h
  split at h
  · rename_i hc
    have hge : 97 ≤ c.val.toNat := hc.1
    have hle : c.val.toNat ≤ 122 := hc.2
    -- the step down is a step up around the end of the range
    have hstep : ('A'.val - 'a'.val).toNat = 2 ^ 32 - 32 := rfl
    rw [← h, Char.toNat_mk, UInt32.toNat_add, hstep] at hd
    omega
  · exact h

theorem image?_range {r : CaseRun} {n code : Nat} (h : r.image? code = some n) :
    r.target ≤ n ∧ n ≤ r.target + (r.last - r.first) := by
  rw [CaseRun.image?] at h
  split at h
  · cases h
    omega
  · cases h

/-- A table maps no other character to one outside of the ranges of its images. -/
theorem eq_of_mapByRuns {runs : List CaseRun} (hpos : 0 < d.toNat)
    (hruns : ∀ r ∈ runs, r.target ≤ d.toNat → r.target + (r.last - r.first) < d.toNat)
    (h : mapByRuns runs c = d) : c = d := by
  rw [mapByRuns] at h
  split at h
  · rename_i n hn
    rcases List.exists_of_findSome?_eq_some hn with ⟨r, hr, himage⟩
    have hrange := image?_range himage
    refine absurd h (ofNat_ne hpos ?_)
    rintro rfl
    have := hruns r hr hrange.1
    omega
  · exact h

theorem uncased_of_untargeted (hd : Untargeted d.toNat) : Uncased d := by
  rcases hd with ⟨hpos, hletters, hspecial, hlower, hupper, hwide⟩
  have hneq : ∀ n ∈ [0x307, 0x3c2, 0x3c3], Char.ofNat n ≠ d := by
    intro n hn
    refine ofNat_ne hpos ?_
    rintro rfl
    exact hspecial hn
  constructor
  · intro c h
    rw [lowerOf] at h
    split at h
    · rcases List.mem_cons.mp h with rfl | h
      · exact absurd hletters (by decide)
      · exact absurd (List.mem_singleton.mp h).symm (hneq _ (by decide))
    · rw [List.mem_singleton, lowerChar] at h
      split at h
      · exact eq_of_toLower hletters h.symm
      · exact eq_of_mapByRuns hpos hlower h.symm
  · intro c h
    rw [upperOf] at h
    split at h
    · exact eq_of_toUpper hletters (List.mem_singleton.mp h).symm
    · split at h
      · rename_i row hrow
        rcases List.mem_map.mp h with ⟨n, hn, he⟩
        refine absurd he (ofNat_ne hpos ?_)
        rintro rfl
        exact hwide row (List.mem_of_find?_eq_some hrow) hn
      · exact eq_of_mapByRuns hpos hupper (List.mem_singleton.mp h).symm
  · intro final
    split
    · exact (hneq _ (by decide)).symm
    · exact (hneq _ (by decide)).symm

/-- The character comes before the letters. -/
def IsSign (d : Char) : Prop := 0 < d.toNat ∧ d.toNat < 65

instance (d : Char) : Decidable (IsSign d) := inferInstanceAs (Decidable (_ ∧ _))

theorem IsSign.uncased (hd : IsSign d) : Uncased d := by
  rcases hd with ⟨hpos, hlt⟩
  -- all images are letters or come behind the letters
  have hruns : (∀ r ∈ lowerRuns, 65 ≤ r.target) ∧ (∀ r ∈ upperRuns, 65 ≤ r.target) ∧
      ∀ row ∈ wideUppers, ∀ n ∈ row.tail, 65 ≤ n := by decide +kernel
  rcases hruns with ⟨hlower, hupper, hwide⟩
  refine uncased_of_untargeted ⟨hpos, Or.inl hlt, ?_, ?_, ?_, ?_⟩
  · simp only [List.mem_cons, List.not_mem_nil, or_false]
    omega
  · exact fun r hr hle => absurd (hlower r hr) (by omega)
  · exact fun r hr hle => absurd (hupper r hr) (by omega)
  · exact fun row hrow hn => absurd (hwide row hrow _ hn) (by omega)

/-- The codes of blanks beyond ASCII. -/
def wideBlanks : List Nat :=
  [0x85, 0xa0, 0x1680, 0x2000, 0x2001, 0x2002, 0x2003, 0x2004, 0x2005, 0x2006, 0x2007, 0x2008,
    0x2009, 0x200a, 0x2028, 0x2029, 0x202f, 0x205f, 0x3000]

theorem isSign_or_mem_wideBlanks (h : isBlank d = true) : IsSign d ∨ d.toNat ∈ wideBlanks := by
  simp only [isBlank, Bool.or_eq_true, Bool.and_eq_true, decide_eq_true_eq, beq_iff_eq] at h
  simp only [IsSign, wideBlanks, List.mem_cons, List.not_mem_nil, or_false]
  omega

theorem uncased_of_isBlank (h : isBlank d = true) : Uncased d := by
  have hblanks : ∀ n ∈ wideBlanks, Untargeted n := by decide +kernel
  rcases isSign_or_mem_wideBlanks h with hd | hd
  · exact hd.uncased
  · exact uncased_of_untargeted (hblanks d.toNat hd)

/-! ## Texts -/

theorem Uncased.mem_of_mem_lowerFrom (hd : Uncased d) (before s : List Char)
    (h : d ∈ lowerFrom before s) : d ∈ s := by
  induction s generalizing before with
  | nil => cases h
  | cons c rest ih =>
    rw [lowerFrom, List.mem_append] at h
    rcases h with h | h
    · split at h
      · -- a sigma stays a sigma
        exact absurd (List.mem_singleton.mp h) (hd.ne_sigma _)
      · rw [hd.eq_of_mem_lowerOf c h]
        exact List.mem_cons_self
    · exact List.mem_cons_of_mem _ (ih _ h)

theorem Uncased.mem_of_mem_lower (hd : Uncased d) {s : String} (h : d ∈ (lower s).toList) :
    d ∈ s.toList := by
  rw [lower, String.toList_ofList] at h
  exact hd.mem_of_mem_lowerFrom _ _ h

theorem Uncased.mem_of_mem_upper (hd : Uncased d) {s : String} (h : d ∈ (upper s).toList) :
    d ∈ s.toList := by
  rw [upper, String.toList_ofList] at h
  rcases List.mem_flatMap.mp h with ⟨c, hc, hmem⟩
  exact hd.eq_of_mem_upperOf c hmem ▸ hc

theorem Uncased.mem_of_mem_capitalized (hd : Uncased d) {s : String}
    (h : d ∈ (capitalized s).toList) : d ∈ s.toList := by
  rw [capitalized] at h
  split at h
  · simp at h
  · rename_i c rest hs
    rw [String.toList_ofList, List.mem_append] at h
    rw [hs]
    rcases h with h | h
    · rw [hd.eq_of_mem_upperOf c h]
      exact List.mem_cons_self
    · exact List.mem_cons_of_mem _ h

/-- Words hold characters of the text that are no blanks. -/
theorem mem_of_mem_wordsOf {s w : List Char} (hw : w ∈ wordsOf s) {ch : Char} (hch : ch ∈ w) :
    ch ∈ s ∧ isBlank ch = false := by
  have hmem : ch ∈ (wordsOf s).flatten := List.mem_flatten.mpr ⟨w, hw, hch⟩
  rw [wordsOf_flatten, List.mem_filter] at hmem
  exact ⟨hmem.1, by simpa using hmem.2⟩

theorem isBlank_of_mem_words {s w : String} (hw : w ∈ words s) :
    ∀ ch ∈ w.toList, isBlank ch = false := by
  rcases List.mem_map.mp hw with ⟨cs, hcs, rfl⟩
  intro ch hch
  rw [String.toList_ofList] at hch
  exact (mem_of_mem_wordsOf hcs hch).2

theorem mem_of_mem_intercalate {sep : List Char} {xs : List (List Char)} {ch : Char}
    (h : ch ∈ sep.intercalate xs) : ch ∈ sep ∨ ∃ x ∈ xs, ch ∈ x := by
  induction xs with
  | nil => simp [List.intercalate] at h
  | cons x rest ih =>
    cases rest with
    | nil =>
      simp only [List.intercalate, List.intersperse, List.flatten_cons, List.flatten_nil,
        List.append_nil] at h
      exact Or.inr ⟨x, List.mem_cons_self, h⟩
    | cons y rest =>
      simp only [List.intercalate, List.intersperse, List.flatten_cons, List.mem_append] at h
      rcases h with h | h | h
      · exact Or.inr ⟨x, List.mem_cons_self, h⟩
      · exact Or.inl h
      · refine (ih ?_).imp_right ?_
        · simpa only [List.intercalate, List.intersperse] using h
        · rintro ⟨z, hz, hch⟩
          exact ⟨z, List.mem_cons_of_mem _ hz, hch⟩

end Text

/-! ## File names -/

namespace FileName

variable {d : Char}

theorem mem_of_mem_breakCase {s : List Char} (h : d ∈ breakCase s) : d ∈ s ∨ d = ' ' := by
  fun_induction breakCase s with
  | case1 a b rest _ ih =>
    rcases List.mem_cons.mp h with rfl | h
    · exact Or.inl List.mem_cons_self
    · rcases List.mem_cons.mp h with rfl | h
      · exact Or.inr rfl
      · exact (ih h).imp_left (List.mem_cons_of_mem _)
  | case2 a b rest _ ih =>
    rcases List.mem_cons.mp h with rfl | h
    · exact Or.inl List.mem_cons_self
    · exact (ih h).imp_left (List.mem_cons_of_mem _)
  | case3 s => exact Or.inl h

theorem mem_of_mem_breakMarks {s : List Char} (h : d ∈ breakMarks s) : d ∈ s ∨ d = ' ' := by
  rcases List.mem_map.mp h with ⟨c, hc, he⟩
  split at he
  · exact Or.inr he.symm
  · exact Or.inl (he ▸ hc)

theorem mem_of_mem_splitWords {name w : String} (hw : w ∈ splitWords name) (hd : d ∈ w.toList) :
    d ∈ name.toList := by
  rcases List.mem_map.mp hw with ⟨cs, hcs, rfl⟩
  rw [String.toList_ofList] at hd
  rcases Text.mem_of_mem_wordsOf hcs hd with ⟨hmem, hblank⟩
  -- the blanks that have been put in are gone
  have hne : d ≠ ' ' := by
    rintro rfl
    exact absurd hblank (by decide)
  rcases mem_of_mem_breakCase hmem with h | h
  · exact (mem_of_mem_breakMarks h).resolve_right hne
  · exact absurd h hne

/-- A sign in a file name, other than the hyphen that joins words, stands in the class. -/
theorem mem_of_mem_format (hd : Text.IsSign d) (hhyphen : d ≠ '-') {name : String} {case : FileCase}
    (h : d ∈ (format name case).toList) : d ∈ name.toList := by
  have hword : ∀ w ∈ (splitWords name).map Text.lower, d ∈ w.toList → d ∈ name.toList := by
    intro w hw hdw
    rcases List.mem_map.mp hw with ⟨v, hv, rfl⟩
    exact mem_of_mem_splitWords hv (hd.uncased.mem_of_mem_lower hdw)
  have hcapital : ∀ ws : List String, (∀ w ∈ ws, w ∈ (splitWords name).map Text.lower) →
      d ∈ (String.join (ws.map Text.capitalized)).toList → d ∈ name.toList := by
    intro ws hws hmem
    rw [String.toList_join] at hmem
    rcases List.mem_flatMap.mp hmem with ⟨v, hv, hdv⟩
    rcases List.mem_map.mp hv with ⟨w, hw, rfl⟩
    exact hword w (hws w hw) (hd.uncased.mem_of_mem_capitalized hdv)
  have hjoined : ∀ sep : String, d ∉ sep.toList →
      d ∈ (sep.intercalate ((splitWords name).map Text.lower)).toList → d ∈ name.toList := by
    intro sep hsep hmem
    rw [String.toList_intercalate] at hmem
    rcases Text.mem_of_mem_intercalate hmem with hmem | ⟨cs, hcs, hdcs⟩
    · exact absurd hmem hsep
    · rcases List.mem_map.mp hcs with ⟨w, hw, rfl⟩
      exact hword w hw hdcs
  -- one case for each way to write a file name
  unfold format at h
  split at h
  · exact h
  · exact h
  · exact hjoined "-" (by simpa using hhyphen) h
  · refine hjoined "_" ?_ h
    intro hmem
    rw [show "_".toList = ['_'] from rfl, List.mem_singleton] at hmem
    exact absurd hd (by rw [hmem]; decide)
  · rename_i w ws heq
    rw [String.toList_append, List.mem_append] at h
    rcases h with h | h
    · exact hword w (by rw [heq]; exact List.mem_cons_self) h
    · exact hcapital ws (fun v hv => by rw [heq]; exact List.mem_cons_of_mem _ hv) h
  · exact hcapital _ (fun _ hv => hv) h

end FileName

end BlockMarkup
