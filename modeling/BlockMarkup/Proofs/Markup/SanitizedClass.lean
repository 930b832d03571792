import BlockMarkup.Proofs.Markup.ClassSpelling

/-! # Sanitized class attributes

What sanitizing makes of an element with a class attribute, step by step. Patterns that demand a sign
the element lacks are passed over at once (`replaceAll_div_of_lack`), and so are those for tags
(`replaceAll_div_of_tags`); of the others, the ones for template syntax drop words of the value
(`dropTemplates_div`), those for spellings settle on one (`unifyClasses_div`), and the last two clean
the value. `sanitize_div` puts the steps together.
-/

namespace BlockMarkup.Markup

open BlockMarkup.Regex (CharSet Cursor Eats Refuses Rewrites Silent)
open BlockMarkup.Regex.Cursor (spot)
open Token (eats_char eats_blanks_nil yields_blanks yields_char)

namespace ClassSpelling

variable {a : ClassSpelling} {r : Regex} {f : Regex.Match → List Char} {d : Char}
  {before rest v t : List Char} {ts : List (List Char)}

/-! ## Signs that are not there -/

/-- The signs and letters of all elements with a class attribute in some spelling, as often as they
stand in one. -/
def allSigns : List Char := "<div className=\x7b\"\"''\x60\x60\x7d></div>".toList

theorem div_nil_sublist (a : ClassSpelling) : (a.div []).Sublist allSigns := by
  rcases a with ⟨k, f⟩
  cases k <;> cases f <;> decide

theorem count_div (hv : d ∉ v) : (a.div v).count d = (a.div []).count d := by
  have htext : (a.text v).count d = (a.text []).count d := by
    simp only [text, List.count_append, List.count_cons, List.count_eq_zero.mpr hv, List.count_nil]
  have hsides : ∀ p q : List Char, (p ++ (a.text v ++ q)).count d = (p ++ (a.text [] ++ q)).count d := by
    intro p q
    simp only [List.count_append, htext]
  exact hsides _ _

/-- A pattern that demands more of a sign than the element has leaves it alone. -/
theorem replaceAll_div_of_lack (hv : d ∉ v) (h : (a.div []).count d < r.demand d) :
    r.replaceAll f (a.div v) = a.div v :=
  Regex.replaceAll_of_demand (d := d) (by rwa [count_div hv])

/-- Signs that stand in no class value. -/
def signs : List Char := ['!', '%', '#', '*', '$', '.', '\x7b']

/-- Whether the pattern demands a sign that no element with a class attribute has, or not so often. -/
def isLacking (r : Regex) : Bool := signs.any fun d => decide (allSigns.count d < r.demand d)

theorem removeAll_of_isLacking (hv : IsValue v) (h : isLacking r = true) :
    r.removeAll (a.div v) = a.div v := by
  obtain ⟨d, hmem, hd⟩ := List.any_eq_true.mp h
  have hsigns : signs.all (fun d => !isTokenChar d && d != ' ') = true := by decide
  have hsign := List.all_eq_true.mp hsigns d hmem
  rw [Bool.and_eq_true, Bool.not_eq_true', bne_iff_ne] at hsign
  refine replaceAll_div_of_lack (hv.not_mem hsign.1 hsign.2) ?_
  exact Nat.lt_of_le_of_lt ((div_nil_sublist a).count_le d) (of_decide_eq_true hd)

theorem removeEach_eq_self {rs : List Regex} {s : List Char} (h : ∀ r ∈ rs, r.removeAll s = s) :
    removeEach rs s = s := by
  induction rs with
  | nil => rfl
  | cons r rs ih =>
    rw [List.forall_mem_cons] at h
    have hstep : removeEach (r :: rs) s = removeEach rs (r.removeAll s) := rfl
    rw [hstep, h.1, ih h.2]

theorem removeEach_of_isLacking {rs : List Regex} (hv : IsValue v) (h : rs.all isLacking = true) :
    removeEach rs (a.div v) = a.div v :=
  removeEach_eq_self fun r hr => removeAll_of_isLacking hv (List.all_eq_true.mp h r hr)

/-! ## Tags -/

/-- The attribute has no angles. -/
theorem angles_not_mem_text (hv : IsInner v) : '<' ∉ a.text v ∧ '>' ∉ a.text v := by
  have hsigns : ∀ a : ClassSpelling, '<' ∉ a.text [] ∧ '>' ∉ a.text [] := by
    rintro ⟨k, f⟩
    cases k <;> cases f <;> decide
  have hleft : '<' ∉ v := hv _ (by decide)
  have hright : '>' ∉ v := hv _ (by decide)
  simpa [text, hleft, hright] using hsigns a

/-- A pattern for tags that neither of the two tags is. -/
theorem replaceAll_div_of_tags (hv : IsInner v) (hr : BeginsWith '<' r)
    (hopening : ∀ before rest, Regex.run r (spot before ('<' :: 'd' :: rest) []) some = none)
    (hclosing : ∀ before rest, Regex.run r (spot before ('<' :: '/' :: 'd' :: rest) []) some = none) :
    r.replaceAll f (a.div v) = a.div v := by
  have htext := (angles_not_mem_text (a := a) hv).1
  have hbehind : Silent r ['<'] ("div ".toList ++ (a.text v ++ ['>'])) "</div>".toList :=
    hr.silent (List.not_mem_append (by decide) (List.not_mem_append htext (by decide)))
  have hend : Silent r (("div ".toList ++ (a.text v ++ ['>'])).reverse ++ ['<']) "</div>".toList [] :=
    .cons (hclosing _ _) (hr.silent (by decide))
  have hsplit : a.div v = '<' :: (("div ".toList ++ (a.text v ++ ['>'])) ++ "</div>".toList) :=
    congrArg ("<div ".toList ++ ·) (List.append_assoc (a.text v) ['>'] "</div>".toList).symm
  rw [hsplit]
  refine Regex.replaceAll_eq_self (.cons (hopening _ _) (Silent.append ?_ hend)) hr.run_nil
  rwa [List.append_nil]

theorem refuses_text_of_ne {text : String} {b c : Char} {o : List Char}
    {groups : List (Nat × Regex.Capture)} (ht : text.toList = b :: d :: o) (hc : c ≠ d) :
    Refuses (Regex.run (.text text)) (spot before (b :: c :: rest) groups) :=
  Regex.refuses_of_yields Regex.yields_text fun u hu => by
    rw [ht] at hu
    exact hc (List.cons.inj (List.cons.inj hu).2).1

/-- Neither tag begins with a mark. -/
theorem removeAll_enclosed_of_tags {opening closing : String} {o : List Char} (hv : IsInner v)
    (ho : opening.toList = '<' :: d :: o) (hd : d ≠ 'd' ∧ d ≠ '/') :
    (Pattern.enclosed opening closing).removeAll (a.div v) = a.div v := by
  have hrefuses : ∀ c, c ≠ d → ∀ before rest,
      Regex.run (Pattern.enclosed opening closing) (spot before ('<' :: c :: rest) []) some = none :=
    fun c hc before rest => Refuses.seq (Refuses.seq (refuses_text_of_ne ho hc)) some
  exact replaceAll_div_of_tags hv ((beginsWith_text ho).seq).seq (hrefuses 'd' hd.1.symm)
    fun before rest => hrefuses '/' hd.2.symm before ('d' :: rest)

theorem tagged_div (hv : IsInner v) : Tagged (a.div v) := by
  have hname : LowerName ['d', 'i', 'v'] := ⟨by decide, List.all_eq_true.mp (by decide)⟩
  obtain ⟨hleft, hright⟩ := angles_not_mem_text (a := a) hv
  have hlast : ∀ f : ValueForm, ∃ cs c, f.closing = cs ++ [c] ∧ c ≠ '/' := by
    intro f
    cases f with
    | double | single => exact ⟨[], _, rfl, by decide⟩
    | bracedDouble | bracedSingle | bracedTemplate => exact ⟨[_], _, rfl, by decide⟩
  have hbody : TagBody (' ' :: a.text v) := by
    refine ⟨fun c hc => by cases hc; rfl, ⟨by simp [hleft], by simp [hright]⟩, fun c hc => ?_⟩
    obtain ⟨cs, e, hclosing, he⟩ := hlast a.form
    have hsplit : ' ' :: a.text v =
        (' ' :: (a.key.name.toList ++ '=' :: (a.form.opening ++ (v ++ cs)))) ++ [e] := by
      simp [text, hclosing]
    rw [hsplit, List.getLast?_concat] at hc
    cases hc
    exact he
  have htags : a.div v = tagText false ['d', 'i', 'v'] (' ' :: a.text v) ++
      tagText true ['d', 'i', 'v'] [] := by
    rw [div_eq, tagText, tagText]
    simp only [List.cons_append, List.append_assoc, List.nil_append]
    rfl
  rw [htags]
  exact (tagged_tagText false hname (by decide) hbody).append
    (tagged_tagText true hname (by decide) tagBody_nil)

/-! ## Opaque parts -/

/-- Metadata stands at the very start or nowhere. -/
theorem replaceFirst_frontmatter {s : List Char} (hs : s.head? ≠ some '-') :
    Pattern.frontmatter.replaceFirst f s = s := by
  have hrun : ∀ before after, after.head? ≠ some '-' ∨ before ≠ [] →
      Regex.run Pattern.frontmatter (spot before after []) some = none := by
    intro before after h
    refine Refuses.seq (Refuses.seq (Refuses.seq (Regex.refuses_of_yields
      ((Regex.yields_anchor _).seq Regex.yields_text) ?_))) some
    rintro u ⟨w, ⟨rfl, hstart⟩, htext⟩
    have hafter : after = "---".toList ++ u.after := htext
    rcases h with h | h
    · exact h (by rw [hafter]; rfl)
    · exact h (List.isEmpty_iff.mp hstart)
  have hsilent : Silent Pattern.frontmatter [] s [] := by
    rintro p c q rfl
    refine hrun _ _ ?_
    cases p with
    | nil => exact Or.inl hs
    | cons e p => exact Or.inr (by simp)
  exact Regex.replaceFirst_eq_self hsilent (hrun _ _ (Or.inl (by simp)))

/-- The spelling once template literals are resolved. -/
def resolved (a : ClassSpelling) : ClassSpelling :=
  respell ⟨.plain, .bracedTemplate⟩ (respell ⟨.camel, .bracedTemplate⟩ a)

theorem form_resolved (a : ClassSpelling) : (resolved a).form ≠ .bracedTemplate := by
  rcases a with ⟨k, f⟩
  cases k <;> cases f <;> decide

/-- There is no metadata, no character data and no script. -/
theorem dropRaw_div (hv : IsInner v) : removeEach [Pattern.characterData, Pattern.scriptOrStyle]
    (Pattern.frontmatter.replaceFirst (fun _ => []) (a.div v)) = a.div v := by
  have hfront : Pattern.frontmatter.replaceFirst (fun _ => []) (a.div v) = a.div v :=
    replaceFirst_frontmatter fun h => by cases h
  have hdata : Pattern.characterData.removeAll (a.div v) = a.div v :=
    removeAll_enclosed_of_tags hv rfl (by decide)
  rw [hfront, removeEach, List.foldl_cons, List.foldl_cons, List.foldl_nil, hdata,
    overlooks_scriptOrStyle.removeAll (tagged_div hv)]

theorem dropOpaque_div (hv : IsValue v) : dropOpaque (a.div v) = (resolved a).div v := by
  have hcamel : (Pattern.templateLiteral "className").replaceAll toClassAttribute (a.div v) =
      (respell ⟨.camel, .bracedTemplate⟩ a).div v :=
    replaceAll_pattern ⟨.camel, .bracedTemplate⟩ a hv.isInner hv.sign_not_mem
  have hplain : (Pattern.templateLiteral "class").replaceAll toClassAttribute
      ((respell ⟨.camel, .bracedTemplate⟩ a).div v) = (resolved a).div v :=
    replaceAll_pattern ⟨.plain, .bracedTemplate⟩ _ hv.isInner hv.sign_not_mem
  rw [dropOpaque, hcamel, hplain, dropRaw_div hv.isInner]

/-! ## Template syntax -/

/-- Whether a word of a class value stays when template syntax is removed. -/
def isKept (w : List Char) : Bool := !isDirective w && !isEvent w

/-- The first word of a tag behind its name: the attribute up to the first blank in its value. -/
def firstWord (a : ClassSpelling) (t : List Char) : List Char :=
  a.key.name.toList ++ '=' :: (a.form.opening ++ t)

theorem div_lined (a : ClassSpelling) (t : List Char) (ts : List (List Char)) :
    a.div (t ++ lined ts) =
      "<div".toList ++ (lined (a.firstWord t :: ts) ++ (a.form.closing ++ "></div>".toList)) := by
  rw [div_eq, text, lined_cons, firstWord]
  simp only [List.append_assoc, List.cons_append]
  rfl

theorem isBlank_of_all {cs : List Char} (h : cs.all (fun c => !Text.isBlank c) = true) :
    ∀ c ∈ cs, Text.isBlank c = false := by
  simpa using h

theorem endsWord_closing {f : ValueForm} (hf : f ≠ .bracedTemplate) :
    EndsWord (f.closing ++ "></div>".toList) := by
  cases f with
  | bracedTemplate => exact absurd rfl hf
  | double | single | bracedDouble | bracedSingle =>
    exact ⟨_, rfl, by decide⟩

theorem exists_firstWord (a : ClassSpelling) (t : List Char) : ∃ w, a.firstWord t = 'c' :: w := by
  obtain ⟨name, hname, -⟩ := exists_name a.key
  exact ⟨name ++ '=' :: (a.form.opening ++ t), by rw [firstWord, hname]; rfl⟩

theorem isTagWord_firstWord (ht : ∀ c ∈ t, isTokenChar c = true) : IsTagWord (a.firstWord t) := by
  have hsigns : ∀ a : ClassSpelling, (a.firstWord []).all
      (fun c => !Text.isBlank c && c != ':' && c != '@' && c != '#') = true := by
    rintro ⟨k, f⟩
    cases k <;> cases f <;> decide
  have hmem : ∀ c ∈ a.firstWord t, Text.isBlank c = false ∧ c ≠ ':' ∧ c ≠ '@' ∧ c ≠ '#' := by
    intro c hc
    by_cases htoken : isTokenChar c = true
    · refine ⟨isBlank_of_isTokenChar htoken, ?_, ?_, ?_⟩ <;> rintro rfl <;> cases htoken
    · have hnil : c ∈ a.firstWord [] := by
        have hnot : c ∉ t := fun hmem => htoken (ht c hmem)
        simpa [firstWord, hnot] using hc
      have hall := List.all_eq_true.mp (hsigns a) c hnil
      simpa [and_assoc] using hall
  obtain ⟨w, hw⟩ := exists_firstWord a t
  refine ⟨by simp [hw], fun c hc => (hmem c hc).1, ⟨fun hc => (hmem _ hc).2.1 rfl,
    fun hc => (hmem _ hc).2.2.1 rfl, fun hc => (hmem _ hc).2.2.2 rfl⟩, fun hhead => ?_⟩
  rw [hw] at hhead
  cases hhead

/-- A pattern that matches at words of one kind drops these words of a value. -/
theorem replaceAll_div_of_words (drop : List Char → Bool) (ha : a.form ≠ .bracedTemplate)
    (ht : ∀ c ∈ t, isTokenChar c = true) (hts : ∀ w ∈ ts, IsToken w) (hr : BeginsBlank r)
    (hfirst : ∀ w, drop ('c' :: w) = false)
    (hits : ∀ w before rest, IsToken w → EndsWord rest → drop w = true →
      Eats r (' ' :: w) before rest [] [] ∧ ∀ m, f m = [])
    (misses : ∀ w before rest, IsTagWord w → EndsWord rest → drop w = false →
      Regex.run r (spot before (' ' :: (w ++ rest)) []) some = none) :
    r.replaceAll f (a.div (t ++ lined ts)) =
      a.div (t ++ lined (ts.filter fun w => !drop w)) := by
  -- the first token is one word with the name of the attribute, and so it is never dropped
  have hkept : drop (a.firstWord t) = false := by
    obtain ⟨w, hw⟩ := exists_firstWord a t
    rw [hw, hfirst]
  have hwords : ∀ w ∈ a.firstWord t :: ts, IsTagWord w :=
    List.forall_mem_cons.mpr ⟨isTagWord_firstWord ht, fun w hw => (hts w hw).isTagWord⟩
  have hclosing : ∀ c ∈ a.form.closing ++ "></div>".toList, Text.isBlank c = false := by
    intro c hc
    rcases List.mem_append.mp hc with hc | hc
    · have hquote := isBlank_quote a.form
      rw [ValueForm.closing] at hc
      cases hbraced : a.form.isBraced <;> rw [hbraced] at hc <;> simp at hc
      · rw [hc, hquote]
      · rcases hc with rfl | rfl
        · exact hquote
        · rfl
    · exact isBlank_of_all (by decide) c hc
  have hlist : (a.firstWord t :: ts).filter (fun w => !drop w) =
      a.firstWord t :: ts.filter fun w => !drop w := List.filter_cons_of_pos (by simp [hkept])
  rw [div_lined, div_lined, ← hlist]
  refine replaceAll_lined hr (isBlank_of_all (by decide)) hclosing
    (fun w hw => (hwords w hw).blank) ?_ ?_
  · intro w ws hsuffix hdrop before
    have hw : IsToken w := by
      rcases List.suffix_cons_iff.mp hsuffix with heq | hsuffix
      · rw [(List.cons.inj heq).1, hkept] at hdrop
        cases hdrop
      · exact hts w (hsuffix.subset List.mem_cons_self)
    exact hits w before _ hw ((endsWord_closing ha).lined ws) hdrop
  · intro w ws hsuffix hdrop before
    exact misses w before _ (hwords w (hsuffix.subset List.mem_cons_self))
      ((endsWord_closing ha).lined ws) hdrop

/-- The tags of a fragment, as removed. -/
def fragmentTag : Regex := .alt (.text "<>" ++ .blanks) (.text "</>")

theorem removeAll_fragmentTag (hv : IsInner v) : fragmentTag.removeAll (a.div v) = a.div v := by
  have hbegins : BeginsWith '<' fragmentTag := by
    intro s k t h
    rw [fragmentTag, Regex.run_alt, Option.or_eq_some_iff] at h
    rcases h with h | ⟨-, h⟩
    · exact ((beginsWith_text (show "<>".toList = '<' :: ['>'] from rfl)).seq) s k t h
    · exact (beginsWith_text (show "</>".toList = '<' :: ['/', '>'] from rfl)) s k t h
  have hrefuses : ∀ (before after : List Char), (∀ s, after ≠ '<' :: '>' :: s) →
      (∀ s, after ≠ '<' :: '/' :: '>' :: s) →
        Regex.run fragmentTag (spot before after []) some = none := by
    intro before after hopening hclosing
    exact (Refuses.seq (Regex.refuses_of_yields Regex.yields_text fun u hu => hopening _ hu)).alt
      (Regex.refuses_of_yields Regex.yields_text fun u hu => hclosing _ hu) some
  -- both tags have a name
  refine replaceAll_div_of_tags hv hbegins (fun before rest => ?_) fun before rest => ?_
  · refine hrefuses _ _ (fun s hs => ?_) fun s hs => ?_
    · exact absurd (List.cons.inj (List.cons.inj hs).2).1 (by decide)
    · exact absurd (List.cons.inj (List.cons.inj hs).2).1 (by decide)
  · refine hrefuses _ _ (fun s hs => ?_) fun s hs => ?_
    · exact absurd (List.cons.inj (List.cons.inj hs).2).1 (by decide)
    · exact absurd (List.cons.inj (List.cons.inj (List.cons.inj hs).2).2).1 (by decide)

theorem isValue_lined (ht : ∀ c ∈ t, isTokenChar c = true) (hts : ∀ w ∈ ts, IsToken w) :
    IsValue (t ++ lined ts) := by
  intro c hc
  rw [List.mem_append, lined, List.mem_flatMap] at hc
  rcases hc with hc | ⟨w, hw, hc⟩
  · exact Or.inl (ht c hc)
  · rcases List.mem_cons.mp hc with rfl | hc
    · exact Or.inr rfl
    · exact Or.inl ((hts w hw).mem c hc)

theorem removeEach_append (rs rs' : List Regex) (s : List Char) :
    removeEach (rs ++ rs') s = removeEach rs' (removeEach rs s) := List.foldl_append

section Words

variable (ha : a.form ≠ .bracedTemplate) (ht : ∀ c ∈ t, isTokenChar c = true)
  (hts : ∀ w ∈ ts, IsToken w)

include ha ht hts

/-- A pattern that matches at no word leaves the value alone. -/
theorem replaceAll_div_of_no_words (hr : BeginsBlank r)
    (misses : ∀ w before rest, IsTagWord w → EndsWord rest →
      Regex.run r (spot before (' ' :: (w ++ rest)) []) some = none) :
    r.replaceAll f (a.div (t ++ lined ts)) = a.div (t ++ lined ts) := by
  have hkeeps := replaceAll_div_of_words (f := f) (fun _ => false) ha ht hts hr (fun _ => rfl)
    (fun w before rest hw hrest h => by cases h)
    fun w before rest hw hrest _ => misses w before rest hw hrest
  have hall : (ts.filter fun _ => !false) = ts := List.filter_true ts
  rwa [hall] at hkeeps

theorem removeAll_directive : Pattern.directive.removeAll (a.div (t ++ lined ts)) =
    a.div (t ++ lined (ts.filter fun w => !isDirective w)) :=
  replaceAll_div_of_words isDirective ha ht hts ((beginsBlank_span (by decide)).seq.seq) (fun _ => rfl)
    (fun _ _ _ hw hrest h => ⟨eats_directive hw hrest h, fun _ => rfl⟩)
    fun _ _ _ hw hrest h => run_directive hw hrest h

theorem removeAll_eventHandler : Pattern.eventHandler.removeAll (a.div (t ++ lined ts)) =
    a.div (t ++ lined (ts.filter fun w => !isEvent w)) :=
  replaceAll_div_of_words isEvent ha ht hts ((beginsBlank_span (by decide)).seq.seq.seq.seq)
    (fun _ => rfl) (fun _ _ _ hw hrest h => ⟨eats_eventHandler hw hrest h, fun _ => rfl⟩)
    fun _ _ _ hw hrest h => run_eventHandler hw hrest h

theorem removeAll_rawContent :
    Pattern.rawContent.removeAll (a.div (t ++ lined ts)) = a.div (t ++ lined ts) :=
  replaceAll_div_of_no_words ha ht hts ((beginsBlank_span (by decide)).seq.seq)
    fun _ _ _ hw hrest => run_rawContent hw hrest

theorem replaceAll_wideBlank :
    Pattern.wideBlank.replaceAll (fun _ => [' ']) (a.div (t ++ lined ts)) = a.div (t ++ lined ts) :=
  replaceAll_div_of_no_words ha ht hts (beginsBlank_span (by decide))
    fun _ _ _ hw _ => run_wideBlank hw

/-- Removing template syntax drops the words of a value that are taken for it, except the first one. -/
theorem dropTemplates_div :
    dropTemplates (a.div (t ++ lined ts)) = a.div (t ++ lined (ts.filter isKept)) := by
  -- the patterns before and behind these demand signs that the element lacks
  have hsplit : Pattern.templateSyntax = Pattern.templateSyntax.take 6 ++ ([fragmentTag,
      Pattern.directive, Pattern.eventHandler, Pattern.rawContent] ++
        [Pattern.enclosed "$\x7b" "\x7d"]) := rfl
  have hsub : ∀ p : List Char → Bool, ∀ w ∈ ts.filter p, IsToken w :=
    fun p w hw => hts w (List.mem_of_mem_filter hw)
  have hfilter : (ts.filter fun w => !isDirective w).filter (fun w => !isEvent w) =
      ts.filter isKept := by
    rw [List.filter_filter]
    exact List.filter_congr fun w _ => Bool.and_comm _ _
  have hwords : removeEach [fragmentTag, Pattern.directive, Pattern.eventHandler, Pattern.rawContent]
      (a.div (t ++ lined ts)) = a.div (t ++ lined (ts.filter isKept)) := by
    simp only [removeEach, List.foldl_cons, List.foldl_nil]
    rw [removeAll_fragmentTag (isValue_lined ht hts).isInner, removeAll_directive ha ht hts,
      removeAll_eventHandler ha ht (hsub _), hfilter, removeAll_rawContent ha ht (hsub _)]
  rw [dropTemplates, hsplit, removeEach_append, removeEach_append,
    removeEach_of_isLacking (isValue_lined ht hts) (by decide), hwords,
    removeEach_of_isLacking (isValue_lined ht (hsub _)) (by decide),
    replaceAll_wideBlank ha ht (hsub _)]

end Words

/-! ## Spellings made one -/

/-- The spellings that are made canonical behind template syntax, in this order. -/
def unifiedSpellings : List ClassSpelling := [⟨.camel, .bracedDouble⟩, ⟨.camel, .bracedSingle⟩,
  ⟨.camel, .double⟩, ⟨.camel, .single⟩, ⟨.plain, .bracedDouble⟩, ⟨.plain, .bracedSingle⟩]

/-- The spelling that an attribute has in the end: all become canonical but the one in single quotes
that needs no change to be markup. -/
def settled (a : ClassSpelling) : ClassSpelling := if a = ⟨.plain, .single⟩ then a else canonical

theorem foldl_respell (ha : a.form ≠ .bracedTemplate) :
    unifiedSpellings.foldl (fun b a => respell a b) a = settled a := by
  rcases a with ⟨k, f⟩
  cases k <;> cases f <;> first | rfl | exact absurd rfl ha

theorem settled_resolved (a : ClassSpelling) : settled (resolved a) = settled a := by
  rcases a with ⟨k, f⟩
  cases k <;> cases f <;> rfl

theorem settled_cases (a : ClassSpelling) : settled a = canonical ∨ settled a = ⟨.plain, .single⟩ := by
  rw [settled]
  split
  · rename_i h
    exact Or.inr h
  · exact Or.inl rfl

theorem foldl_pattern (as : List ClassSpelling) (b : ClassSpelling) (hv : IsInner v) (hsign : '=' ∉ v) :
    (as.map pattern).foldl (fun s r => r.replaceAll toClassAttribute s) (b.div v) =
      (as.foldl (fun b a => respell a b) b).div v := by
  induction as generalizing b with
  | nil => rfl
  | cons a as ih =>
    rw [List.map_cons, List.foldl_cons, replaceAll_pattern a b hv hsign, ih, List.foldl_cons]

theorem removeAll_opaqueClass (a : ClassSpelling) (hv : '=' ∉ v) :
    Pattern.opaqueClass.removeAll ((settled a).div v) = (settled a).div v := by
  refine replaceAll_div_of_run (k := .camel) hv fun before rest => ?_
  have htext : ∀ f : ValueForm, (text ⟨.plain, f⟩ v) ++ rest =
      ClassAttribute.plain.name.toList ++ '=' :: (f.opening ++ (v ++ f.closing) ++ rest) := by
    intro f
    simp [text]
  rcases settled_cases a with h | h <;> rw [h]
  · rw [canonical, htext]
    exact refuses_assigned_of_ne (by decide) some
  · rw [htext]
    exact refuses_assigned_of_ne (by decide) some

theorem unifyClasses_div (ha : a.form ≠ .bracedTemplate) (hv : IsInner v) (hsign : '=' ∉ v) :
    unifyClasses (a.div v) = (settled a).div v := by
  have hbacktick : ∀ f : Regex.Match → List Char,
      Pattern.backtickValue.replaceAll f (a.div v) = a.div v := by
    have hcount : (a.div []).count '\x60' = 0 := by
      rcases a with ⟨k, f⟩
      cases k <;> cases f <;> first | decide | exact absurd rfl ha
    refine fun f => replaceAll_div_of_lack (d := '\x60') (hv _ (by decide)) ?_
    rw [hcount]
    decide
  have hspellings : Pattern.classSpellings = unifiedSpellings.map pattern := rfl
  rw [unifyClasses, hbacktick, hspellings, foldl_pattern _ _ hv hsign, foldl_respell ha,
    removeAll_opaqueClass a hsign]

theorem openComponents_div (hv : IsInner v) : openComponents (a.div v) = a.div v := by
  have hrefuses : ∀ c, (CharSet.between 'A' 'Z').contains c = false → ∀ before rest,
      Regex.run Pattern.closedComponent (spot before ('<' :: c :: rest) []) some = none := by
    intro c hc before rest
    refine Refuses.seq (Refuses.seq (Regex.refuses_seq_of_yields (yields_char '<') fun u hu =>
      Refuses.group (Refuses.seq (Regex.refuses_one fun e he => ?_)))) some
    rw [← (List.cons.inj hu).2] at he
    cases he
    exact hc
  exact replaceAll_div_of_tags hv ((beginsWith_char.seq).seq).seq (hrefuses 'd' (by decide))
    fun before rest => hrefuses '/' (by decide) before ('d' :: rest)

/-! ## Cleaning -/

/-- Tokens without those that consist of a hyphen or an underscore. -/
def withoutBare (ws : List (List Char)) : List (List Char) :=
  ws.filter fun t => t != ['-'] && t != ['_']

/-- The element with a cleaned class attribute, or without one if no token is left. -/
def cleanedDiv : List (List Char) → List Char
  | [] => "<div ></div>".toList
  | t :: ts => canonical.div (t ++ lined ts)

theorem intercalate_cons (t : List Char) (ts : List (List Char)) :
    [' '].intercalate (t :: ts) = t ++ lined ts := Text.intercalate_cons_flatMap ' ' t ts

theorem isValue_intercalate (hts : ∀ w ∈ ts, IsToken w) : IsValue ([' '].intercalate ts) := by
  cases ts with
  | nil => simp [List.intercalate, IsValue]
  | cons t ts =>
    rw [List.forall_mem_cons] at hts
    rw [intercalate_cons]
    exact isValue_lined hts.1.mem hts.2

/-- A word that stays inside of the value of an attribute. -/
structure IsInnerWord (w : List Char) : Prop where
  ne_nil : w ≠ []
  blank : ∀ c ∈ w, Text.isBlank c = false
  inner : IsInner w

theorem isInnerWord_of_isToken {w : List Char} (h : IsToken w) : IsInnerWord w :=
  ⟨h.ne_nil, fun c hc => isBlank_of_isTokenChar (h.mem c hc),
    IsValue.isInner fun c hc => Or.inl (h.mem c hc)⟩

theorem isInnerWord_of_mem_wordsOf {w : List Char} (hv : IsInner v) (hw : w ∈ Text.wordsOf v) :
    IsInnerWord w := by
  have hmem := fun c (hc : c ∈ w) => Text.mem_of_mem_wordsOf hw hc
  exact ⟨Text.wordsFrom_ne_nil v [] w hw, fun c hc => (hmem c hc).2,
    fun c hc hcw => hv c hc (hmem c hcw).1⟩

theorem wordsOf_value (hts : ∀ w ∈ ts, IsInnerWord w) : Text.wordsOf ([' '].intercalate ts) = ts :=
  Text.wordsOf_intercalate fun w hw => ⟨(hts w hw).ne_nil, (hts w hw).blank⟩

/-- Cleaning a class attribute drops bare hyphens and underscores. -/
theorem replaceAll_classAttribute (hv : IsInner v) :
    Pattern.classAttribute.replaceAll cleanClass (canonical.div v) =
      cleanedDiv (withoutBare (Text.wordsOf v)) := by
  have hname : Eats (.text "class=") "class=".toList "<div ".toList.reverse
      ((['"'] ++ v ++ ['"']) ++ "></div>".toList) [] [] := Regex.eats_text
  have hmatch := hname.seq (eats_quotedGroup (hv.quote_not_mem .double))
  have hbegins : BeginsWith 'c' Pattern.classAttribute :=
    (beginsWith_text (show "class=".toList = 'c' :: ['l', 'a', 's', 's', '='] from rfl)).seq
  have hclean : ∀ m : Regex.Match, m.group 1 = v →
      "<div ".toList ++ (cleanClass m ++ "></div>".toList) =
        cleanedDiv (withoutBare (Text.wordsOf v)) := by
    intro m hm
    rw [cleanClass, hm]
    cases hkept : withoutBare (Text.wordsOf v) with
    | nil =>
      rw [withoutBare] at hkept
      rw [hkept]
      rfl
    | cons t ws =>
      have ht : t ∈ Text.wordsOf v := List.mem_of_mem_filter (hkept ▸ List.mem_cons_self)
      rw [withoutBare] at hkept
      rw [hkept, intercalate_cons]
      rw [if_neg (by simp [(isInnerWord_of_mem_wordsOf hv ht).ne_nil])]
      rfl
  refine (hbegins.replaceAll_once (by decide) (by decide) (by simp) hmatch).trans ?_
  exact hclean _ (Regex.Match.group_eq (List.lookup_cons_self ..))

theorem isInner_lined (ht : IsInner t) (hts : ∀ w ∈ ts, IsInnerWord w) : IsInner (t ++ lined ts) := by
  intro c hc hmem
  rw [List.mem_append, lined, List.mem_flatMap] at hmem
  rcases hmem with hmem | ⟨w, hw, hmem⟩
  · exact ht c hc hmem
  · rcases List.mem_cons.mp hmem with rfl | hmem
    · revert hc
      decide
    · exact (hts w hw).inner c hc hmem

theorem exists_last (ht : IsInnerWord t) (hts : ∀ w ∈ ts, IsInnerWord w) :
    ∃ u e, t ++ lined ts = u ++ [e] ∧ Text.isBlank e = false := by
  induction ts generalizing t with
  | nil =>
    obtain ⟨u, e, rfl⟩ := List.eq_nil_or_concat t |>.resolve_left ht.ne_nil
    exact ⟨u, e, by simp [lined], ht.blank e (by simp)⟩
  | cons w ws ih =>
    rw [List.forall_mem_cons] at hts
    obtain ⟨u, e, heq, he⟩ := ih hts.1 hts.2
    exact ⟨t ++ ' ' :: u, e, by rw [lined_cons, heq]; simp, he⟩

/-- Behind a part of a value that is not all blanks, no quote follows blanks. -/
theorem refuses_blanks_quote {cs : List Char} {e : Char} {groups : List (Nat × Regex.Capture)}
    (hquote : '"' ∉ cs) (hmem : e ∈ cs) (he : Text.isBlank e = false) :
    Refuses (Regex.run (.seq .blanks (Pattern.char '"')))
      (spot before (cs ++ '"' :: rest) groups) := by
  refine Regex.refuses_of_yields (yields_blanks.seq (yields_char '"')) ?_
  rintro u ⟨w, ⟨bl, hbl, hblanks⟩, hchar⟩
  rw [hchar] at hblanks
  have hblank : e ∈ bl := by
    rcases List.append_eq_append_iff.mp hblanks with ⟨z, rfl, -⟩ | ⟨z, rfl, hz⟩
    · exact List.mem_append_left _ hmem
    · cases z with
      | nil => simpa using hmem
      | cons c z =>
        rw [← (List.cons.inj hz).1] at hquote
        exact absurd (by simp) hquote
  have hboth := hbl e hblank
  rw [he] at hboth
  cases hboth

/-- A value without blanks around it is matched as a whole. -/
theorem eats_paddedValue {c e : Char} (hhead : v.head? = some c) (hlast : v.getLast? = some e)
    (hc : Text.isBlank c = false) (he : Text.isBlank e = false) (hquote : '"' ∉ v) :
    Eats Pattern.paddedValue ('=' :: inQuotes v) before rest [] [(1, .of v ('"' :: rest))] := by
  have hfront : Eats (.seq (.seq (.seq (Pattern.char '=') .blanks) (Pattern.char '"')) .blanks)
      (((['='] ++ []) ++ ['"']) ++ []) before ((v ++ ([] ++ ['"'])) ++ rest) [] [] := by
    refine ((eats_char.seq_nil (eats_blanks_nil fun d hd => by cases hd; rfl)).seq
      eats_char).seq_nil (eats_blanks_nil fun d hd => ?_)
    rw [List.append_assoc, List.head?_append, hhead] at hd
    cases hd
    exact hc
  have hvalue : ∀ before, Eats (.seq (.group 1 (.few (CharSet.single '"').not))
      (.seq .blanks (Pattern.char '"'))) (v ++ ([] ++ ['"'])) before rest []
        [(1, .of v ('"' :: rest))] := by
    intro before
    -- the value is taken as short as it can be, so nothing in it may look like its end
    refine Regex.eats_group_few (fun d hd => ?_) (fun x d y groups heq => ?_)
      ((eats_blanks_nil fun d hd => by cases hd; rfl).seq eats_char)
    · rw [CharSet.contains_not, CharSet.contains_single, Bool.not_eq_true', beq_eq_false_iff_ne]
      rintro rfl
      exact hquote hd
    · rw [heq] at hquote hlast
      rw [List.getLast?_append_of_ne_nil _ (by simp)] at hlast
      have hrest : '"' ∉ d :: y := fun hmem => hquote (by simp [hmem])
      exact refuses_blanks_quote hrest (List.mem_of_getLast? hlast) he
  have hwhole := hfront.seq (hvalue _)
  have hlist : (((['='] ++ []) ++ ['"']) ++ []) ++ (v ++ ([] ++ ['"'])) = '=' :: inQuotes v := by
    simp [inQuotes]
  rw [hlist] at hwhole
  exact fun k t hk => hwhole k t hk

/-- Trimming changes nothing in a value that begins and ends with a word. -/
theorem replaceAll_paddedValue (hts : ∀ w ∈ ts, IsInnerWord w) :
    Pattern.paddedValue.replaceAll (fun m => '=' :: inQuotes (m.group 1)) (cleanedDiv ts) =
      cleanedDiv ts := by
  cases ts with
  | nil => exact Regex.replaceAll_of_demand (d := '"') (by decide)
  | cons t ts =>
    rw [List.forall_mem_cons] at hts
    obtain ⟨ht, hts⟩ := hts
    obtain ⟨u, e, hlast, he⟩ := exists_last ht hts
    obtain ⟨c, w, rfl⟩ := List.exists_cons_of_ne_nil ht.ne_nil
    have hmatch : ∀ before rest, Eats Pattern.paddedValue ('=' :: inQuotes (c :: w ++ lined ts))
        before rest [] [(1, .of (c :: w ++ lined ts) ('"' :: rest))] := fun before rest =>
      eats_paddedValue rfl (by rw [hlast, List.getLast?_concat]) (ht.blank c List.mem_cons_self) he
        ((isInner_lined ht.inner hts).quote_not_mem .double)
    have hbegins : BeginsWith '=' Pattern.paddedValue := ((((((beginsWith_char).seq).seq).seq).seq).seq).seq
    have hsplit : cleanedDiv ((c :: w) :: ts) = "<div class".toList ++
        (('=' :: inQuotes (c :: w ++ lined ts)) ++ "></div>".toList) := rfl
    rw [hsplit]
    refine (hbegins.replaceAll_once (by decide) (by decide) (by simp)
      (hmatch "<div class".toList.reverse "></div>".toList)).trans ?_
    rw [Regex.Match.group_eq (List.lookup_cons_self ..)]

/-- A class attribute in single quotes is not cleaned. -/
theorem tidyValues_single (hv : IsValue v) :
    tidyValues (div ⟨.plain, .single⟩ v) = div ⟨.plain, .single⟩ v := by
  -- cleaning and trimming are for double quotes
  have hlack : ∀ (r : Regex) (f : Regex.Match → List Char), 0 < r.demand '"' →
      r.replaceAll f (div ⟨.plain, .single⟩ v) = div ⟨.plain, .single⟩ v := fun r f hr =>
    replaceAll_div_of_lack (hv.isInner _ (by decide)) (Nat.lt_of_le_of_lt (by decide) hr)
  rw [tidyValues, hlack _ _ (by decide), hlack _ _ (by decide)]

/-- Its words are what a class attribute in double quotes is left with. -/
theorem tidyValues_canonical (hv : IsInner v) :
    tidyValues (canonical.div v) = cleanedDiv (withoutBare (Text.wordsOf v)) := by
  have hclean : ∀ w ∈ withoutBare (Text.wordsOf v), IsInnerWord w := fun w hw =>
    isInnerWord_of_mem_wordsOf hv (List.mem_of_mem_filter hw)
  rw [tidyValues, replaceAll_classAttribute hv, replaceAll_paddedValue hclean]

/-! ## All steps -/

/-- The tokens of a value that stay when template syntax is removed: the first one, and those that are
not taken for it. -/
def survivors : List (List Char) → List (List Char)
  | [] => []
  | t :: ts => t :: ts.filter isKept

theorem isToken_of_mem_survivors (hts : ∀ w ∈ ts, IsToken w) : ∀ w ∈ survivors ts, IsToken w := by
  cases ts with
  | nil => exact hts
  | cons t ts =>
    rw [List.forall_mem_cons] at hts
    exact List.forall_mem_cons.mpr ⟨hts.1, fun w hw => hts.2 w (List.mem_of_mem_filter hw)⟩

theorem dropTemplates_value (ha : a.form ≠ .bracedTemplate) (hts : ∀ w ∈ ts, IsToken w) :
    dropTemplates (a.div ([' '].intercalate ts)) = a.div ([' '].intercalate (survivors ts)) := by
  cases ts with
  | nil =>
    have hempty : dropTemplates (a.div ([] ++ lined [])) = a.div ([] ++ lined ([].filter isKept)) :=
      dropTemplates_div ha (by simp) hts
    exact hempty
  | cons t ts =>
    rw [List.forall_mem_cons] at hts
    rw [survivors, intercalate_cons, intercalate_cons, dropTemplates_div ha hts.1.mem hts.2]

/-- What sanitizing makes of an element with a class attribute: tokens that look like template syntax
are lost except for the first, and bare hyphens and underscores as well, unless the attribute is in
single quotes. -/
theorem sanitize_div (a : ClassSpelling) (hts : ∀ w ∈ ts, IsToken w) :
    sanitize (a.div ([' '].intercalate ts)) =
      if a = ⟨.plain, .single⟩ then a.div ([' '].intercalate (survivors ts))
      else cleanedDiv (withoutBare (survivors ts)) := by
  have hkept := isToken_of_mem_survivors hts
  have hv := isValue_intercalate hts
  have hv' := isValue_intercalate hkept
  rw [sanitize, dropOpaque_div hv, dropTemplates_value (form_resolved a) hts,
    unifyClasses_div (form_resolved a) hv'.isInner hv'.sign_not_mem, settled_resolved,
    openComponents_div hv'.isInner, settled]
  split
  · rename_i h
    rw [h, tidyValues_single hv']
  · rw [tidyValues_canonical hv'.isInner, wordsOf_value fun w hw => isInnerWord_of_isToken (hkept w hw)]

end ClassSpelling

end BlockMarkup.Markup
