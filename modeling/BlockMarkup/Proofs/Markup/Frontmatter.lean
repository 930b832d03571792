import BlockMarkup.Markup.Document
import BlockMarkup.Proofs.Markup.SanitizedClass
import BlockMarkup.Proofs.Regex.Prefix

/-! # Metadata in front of markup

Metadata between lines of hyphens is removed where it is the very start of what is sanitized. That is so
for a component or a page: the markup gives what it gives without the metadata (`sanitize_fenced`). A
selection is wrapped before it is sanitized, so its metadata stands behind the start tag of the wrapper
and stays (`prefix_sanitize_wrapped`).
-/

namespace BlockMarkup.Markup

open BlockMarkup.Regex (Cursor Eats Silent shuns)
open BlockMarkup.Regex.Cursor (spot)
open Token (eats_blanks_nil yields_blanks yields_char)

variable {front s html : List Char} {a : ClassSpelling}

/-- Metadata between lines of hyphens. -/
def fenced (front : List Char) : List Char := "---".toList ++ ('\n' :: (front ++ "\n---\n".toList))

/-! ## At the start -/

/-- The closing hyphens are the first ones behind the opening ones. -/
theorem not_prefix_of_not_infix (h : ¬ "---".toList <:+: front) {x y rest : List Char} {c : Char}
    (hsplit : '\n' :: (front ++ ['\n']) = x ++ c :: y) : ¬ "---".toList <+: c :: (y ++ rest) := by
  intro hprefix
  have hpart : c :: y <:+ '\n' :: (front ++ ['\n']) := ⟨x, hsplit.symm⟩
  rcases List.prefix_or_prefix_of_prefix hprefix (List.prefix_append (c :: y) rest) with hlong | hshort
  · have hinfix := hlong.isInfix.trans hpart.isInfix
    rw [List.infix_cons_iff, List.infix_concat_iff] at hinfix
    rcases hinfix with hstart | hend | hinside
    · cases (List.cons_prefix_cons.mp hstart).1
    · obtain ⟨t, ht⟩ := hend
      have hlast := congrArg List.getLast? ht
      simp at hlast
    · exact h hinside
  · -- too short to hold the hyphens, and a line break at the end
    have hlast : (c :: y).getLast? = some '\n' := by
      have hends : (x ++ c :: y).getLast? = some '\n' := by
        rw [← hsplit, ← List.cons_append, List.getLast?_concat]
      simpa [List.getLast?_cons] using hends
    have hhyphen := hshort.subset (List.mem_of_getLast? hlast)
    revert hhyphen
    decide

theorem run_frontmatter (h : ¬ "---".toList <:+: front) (hs : s.head? = some '<') :
    Regex.run Pattern.frontmatter (spot [] (fenced front ++ s) []) some =
      some (spot (fenced front).reverse s []) := by
  have hopening : ∀ rest, Eats (.seq (.anchor .textStart) (.text "---")) "---".toList [] rest [] [] := by
    intro rest
    have hstart : Eats (.anchor .textStart) [] [] ("---".toList ++ rest) [] [] :=
      Regex.prefers_anchor rfl
    exact hstart.seq Regex.eats_text
  -- there is no fence within the metadata, so the text in between goes up to the second one
  have hbody : Eats (.seq .anyText (.text "---")) (('\n' :: (front ++ ['\n'])) ++ "---".toList)
      ("---".toList.reverse ++ []) (['\n'] ++ s) [] [] :=
    Regex.eats_anyText_text fun x c y hsplit => not_prefix_of_not_infix h hsplit
  have hblanks : ∀ before, Eats .blanks ['\n'] before s [] [] := by
    intro before
    refine Regex.eats_many (fun c hc => ?_) fun c hc => ?_
    · rw [List.mem_singleton.mp hc]
      rfl
    · rw [hs] at hc
      cases hc
      rfl
  have hall := ((hopening _).seq hbody).assoc.seq (hblanks _)
  have hfence : fenced front = "---".toList ++ ('\n' :: (front ++ ['\n']) ++ "---".toList) ++
      ['\n'] := by
    simp [fenced]
  rw [hfence]
  have hrun := hall some _ rfl
  rwa [List.append_nil] at hrun

theorem replaceFirst_fenced (h : ¬ "---".toList <:+: front) (hs : s.head? = some '<') :
    Pattern.frontmatter.replaceFirst (fun _ => []) (fenced front ++ s) = s := by
  have hsilent : Regex.Silent Pattern.frontmatter [] [] (fenced front ++ s) := Regex.silent_nil
  have hfound : Regex.find? Pattern.frontmatter (fenced front ++ s) =
      some ⟨spot [] (fenced front ++ s) [], spot (fenced front).reverse s []⟩ :=
    Regex.findFrom_eq hsilent (run_frontmatter h hs)
  rw [Regex.replaceFirst, hfound]
  rfl

/-! ## Template literals -/

/-- Before the quote of a class attribute stands no angle. -/
theorem exists_of_run_pattern {t : Cursor} {c : Cursor} {k : Cursor → Option Cursor}
    (h : Regex.run a.pattern c k = some t) :
    ∃ pre tail, c.after = pre ++ a.form.quote :: tail ∧ '<' ∉ pre := by
  obtain ⟨u, ⟨w, ⟨v, ⟨x, hname, bl, hbl, hblanks⟩, hsign⟩, bl', hbl', hblanks'⟩, hvalue⟩ :=
    (((Regex.yields_text.seq yields_blanks).seq (yields_char '=')).seq yields_blanks) c _ t h
  obtain ⟨bl'', tail, hbl'', hopening⟩ := ClassSpelling.exists_of_run_form hvalue
  have hangle : ∀ bl : List Char, (∀ c ∈ bl, Text.isBlank c = true) → '<' ∉ bl := by
    intro bl hbl hmem
    cases hbl _ hmem
  have hletters : '<' ∉ a.key.name.toList := by
    cases a.key <;> decide
  refine ⟨a.key.name.toList ++ (bl ++ '=' :: (bl' ++ if a.form.isBraced then '\x7b' :: bl'' else [])),
    tail, ?_, ?_⟩
  · rw [hname, hblanks, hsign, hblanks', hopening]
    split <;> simp
  · simp only [List.mem_append, List.mem_cons, hletters, hangle bl hbl, hangle bl' hbl', false_or]
    split <;> simp [hangle bl'' hbl'']

/-- The metadata has no quote of the template literal, and behind it comes an angle first. -/
theorem silent_pattern_fenced (hquote : a.form.quote ∉ fenced front) (hs : s.head? = some '<') :
    Silent a.pattern [] (fenced front) s := by
  intro p c q hsplit
  cases hrun : Regex.run a.pattern (spot (p.reverse ++ []) (c :: (q ++ s)) []) some with
  | none => rfl
  | some t =>
    obtain ⟨s, rfl⟩ := List.head?_eq_some_iff.mp hs
    obtain ⟨pre, tail, hafter, hangle⟩ := exists_of_run_pattern hrun
    have hsplit' : (c :: q) ++ '<' :: s = pre ++ a.form.quote :: tail := hafter
    have hquote' : a.form.quote ∉ c :: q := by
      rw [hsplit, List.mem_append, not_or] at hquote
      exact hquote.2
    have hne : a.form.quote ≠ '<' := by cases a.form <;> decide
    -- the quote comes too late, behind the angle, or too early, in the metadata
    rcases List.append_eq_append_iff.mp hsplit' with ⟨x, hpre, hrest⟩ | ⟨x, hcq, hrest⟩
    · cases x with
      | nil => exact absurd (List.cons.inj hrest).1.symm hne
      | cons d x =>
        obtain ⟨rfl, -⟩ := List.cons.inj hrest
        exact absurd (by rw [hpre]; simp) hangle
    · cases x with
      | nil => exact absurd (List.cons.inj hrest).1 hne
      | cons d x =>
        obtain ⟨rfl, -⟩ := List.cons.inj hrest
        exact absurd (by rw [hcq]; simp) hquote'

theorem pattern_spec (a : ClassSpelling) : a.pattern.isLocal = true ∧ shuns a.pattern ['<'] = true := by
  rcases a with ⟨k, f⟩
  cases k <;> cases f <;> decide

theorem replaceAll_fenced (hquote : a.form.quote ∉ fenced front) (hs : s.head? = some '<') :
    a.pattern.replaceAll toClassAttribute (fenced front ++ s) =
        fenced front ++ a.pattern.replaceAll toClassAttribute s := by
  obtain ⟨hlocal, hshuns⟩ := pattern_spec a
  exact Regex.replaceAll_append (Regex.shortest_pos_of_shuns hshuns) hlocal (fun _ _ _ => rfl)
    (silent_pattern_fenced hquote hs)

theorem head?_replaceAll (hs : s.head? = some '<') :
    (a.pattern.replaceAll toClassAttribute s).head? = some '<' := by
  obtain ⟨s, rfl⟩ := List.head?_eq_some_iff.mp hs
  obtain ⟨t, ht⟩ := Regex.prefix_replaceAll (f := toClassAttribute) (pattern_spec a).2
    (List.prefix_append ['<'] s)
  have hwhole : a.pattern.replaceAll toClassAttribute ('<' :: s) = '<' :: t := ht.symm
  rw [hwhole]
  rfl

/-- Markup whose template literals are class attributes. -/
def withLiterals (s : List Char) : List Char :=
  (ClassSpelling.pattern ⟨.plain, .bracedTemplate⟩).replaceAll toClassAttribute
    ((ClassSpelling.pattern ⟨.camel, .bracedTemplate⟩).replaceAll toClassAttribute s)

theorem dropOpaque_eq (s : List Char) : dropOpaque s =
    removeEach [Pattern.characterData, Pattern.scriptOrStyle]
      (Pattern.frontmatter.replaceFirst (fun _ => []) (withLiterals s)) := rfl

theorem head?_withLiterals (hs : s.head? = some '<') : (withLiterals s).head? = some '<' :=
  head?_replaceAll (head?_replaceAll hs)

theorem withLiterals_fenced (hback : '\x60' ∉ front) (hs : s.head? = some '<') :
    withLiterals (fenced front ++ s) = fenced front ++ withLiterals s := by
  have hquote : '\x60' ∉ fenced front := by simp [fenced, hback]
  rw [withLiterals, replaceAll_fenced hquote hs, replaceAll_fenced hquote (head?_replaceAll hs),
    withLiterals]

/-- In front of a tag, metadata is dropped and nothing else changes. -/
theorem sanitize_fenced (h : ¬ "---".toList <:+: front) (hback : '\x60' ∉ front)
    (hs : s.head? = some '<') : sanitize (fenced front ++ s) = sanitize s := by
  have hhead := head?_withLiterals hs
  have hdrop : dropOpaque (fenced front ++ s) = dropOpaque s := by
    rw [dropOpaque_eq, dropOpaque_eq, withLiterals_fenced hback hs, replaceFirst_fenced h hhead,
      ClassSpelling.replaceFirst_frontmatter (by rw [hhead]; decide)]
  rw [sanitize, sanitize, hdrop]

/-! ## Behind the wrapper -/

/-- The start tag of the wrapper and the hyphens that open metadata behind it. -/
def wrappedFence : List Char := "<wrapper>".toList ++ "---".toList

theorem silent_scriptOrStyle (rest : List Char) :
    Silent Pattern.scriptOrStyle [] wrappedFence rest := by
  have hname : ∀ c ∈ ['w', 'r', 'a', 'p', 'p', 'e', 'r'], c.isLower = true :=
    List.all_eq_true.mp (by decide)
  intro p c q hsplit
  refine overlooks_scriptOrStyle _ (fun tail htail => ?_) some
  obtain ⟨rfl, hbehind⟩ := List.cons.inj htail
  cases p with
  | nil =>
    have hq : q = ['w', 'r', 'a', 'p', 'p', 'e', 'r'] ++ '>' :: "---".toList :=
      (List.cons.inj hsplit).2.symm
    rw [← hbehind, hq]
    exact ⟨⟨_, '>', "---".toList ++ rest, by simp, hname, by decide, by decide⟩, by simp⟩
  | cons d p =>
    have hmem : '<' ∈ "wrapper>---".toList := by
      have hname : "wrapper>---".toList = p ++ '<' :: q := (List.cons.inj hsplit).2
      rw [hname]
      simp
    exact absurd hmem (by decide)

theorem prefix_dropOpaque (h : wrappedFence <+: s) : wrappedFence <+: dropOpaque s := by
  have hliterals : wrappedFence <+: withLiterals s :=
    Regex.prefix_replaceAll (by decide +kernel) (Regex.prefix_replaceAll (by decide +kernel) h)
  have hhead : (withLiterals s).head? ≠ some '-' := by
    obtain ⟨t, ht⟩ := hliterals
    rw [← ht]
    exact fun h => by cases h
  rw [dropOpaque_eq, ClassSpelling.replaceFirst_frontmatter hhead]
  refine Regex.prefix_replaceAll_of_silent (by decide +kernel) silent_scriptOrStyle ?_
  exact Regex.prefix_replaceAll (by decide +kernel) hliterals

theorem prefix_sanitize (h : wrappedFence <+: s) : wrappedFence <+: sanitize s := by
  have htemplates : wrappedFence <+: dropTemplates (dropOpaque s) :=
    Regex.prefix_replaceAll (by decide +kernel)
      (Regex.prefix_foldl_replaceAll (by decide +kernel) (prefix_dropOpaque h))
  have hclasses : wrappedFence <+: unifyClasses (dropTemplates (dropOpaque s)) :=
    Regex.prefix_replaceAll (by decide +kernel) (Regex.prefix_foldl_replaceAll (by decide +kernel)
      (Regex.prefix_replaceAll (by decide +kernel) htemplates))
  exact Regex.prefix_replaceAll (by decide +kernel) (Regex.prefix_replaceAll (by decide +kernel)
    (Regex.prefix_replaceAll (by decide +kernel) hclasses))

namespace Document

theorem sanitized_read (mode : RootMode) (s : List Char) :
    (read mode s).sanitized = sanitize (wrapped mode s) := by
  unfold read
  generalize sanitize (wrapped mode s) = t
  dsimp only
  cases Node.read t with
  | ok nodes => rfl
  | error e => rfl

/-- Metadata leaves no trace in a component or a page, and in a selection its opening hyphens stand
behind the start tag of the wrapper. -/
theorem sanitized_read_fenced (h : ¬ "---".toList <:+: front) (hback : '\x60' ∉ front)
    (hhtml : html.head? = some '<') :
    (read .root (fenced front ++ html)).sanitized = (read .root html).sanitized ∧
      "<wrapper>---".toList <+: (read .selection (fenced front ++ html)).sanitized := by
  constructor
  · rw [sanitized_read, sanitized_read]
    exact sanitize_fenced h hback hhtml
  · have hsplit : ∀ w d x y z : List Char, w ++ d <+: w ++ (d ++ x ++ y) ++ z :=
      fun w d x y z => ⟨x ++ (y ++ z), by simp only [List.append_assoc]⟩
    have hprefix : wrappedFence <+: sanitize (wrapped .selection (fenced front ++ html)) :=
      prefix_sanitize (hsplit "<wrapper>".toList "---".toList _ _ _)
    have hfence : wrappedFence = "<wrapper>---".toList := by decide
    rw [← hfence]
    exact (sanitized_read .selection (fenced front ++ html)).symm ▸ hprefix

theorem sanitized_read_titled :
    (read .root (fenced "title: x".toList ++ "<p></p>".toList)).sanitized =
        (read .root "<p></p>".toList).sanitized ∧
      "<wrapper>---".toList <+:
        (read .selection (fenced "title: x".toList ++ "<p></p>".toList)).sanitized :=
  sanitized_read_fenced (by decide) (by decide) rfl

theorem sanitized_read_selection_titled :
    (read .selection (fenced "x".toList ++ "<p></p>".toList)).sanitized ≠
      (read .selection "<p></p>".toList).sanitized := by
  decide +kernel

end Document

end BlockMarkup.Markup
