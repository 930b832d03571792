import BlockMarkup.Proofs.Markup.SanitizedClass
import BlockMarkup.Proofs.Markup.Written

/-! # Class tokens in markup

What becomes of the tokens of a class attribute when its element is sanitized and read. An element in
the canonical spelling stays as it is exactly if none of its tokens is dropped
(`sanitize_canonical_eq_self_iff`). Bare hyphens and underscores are dropped in all spellings but one
(`readTokens_eq`), so all spellings have the same tokens exactly if there are none
(`readTokens_agree_iff`).
-/

namespace BlockMarkup.Markup.ClassSpelling

variable {a : ClassSpelling} {v : List Char} {ts us : List (List Char)}

/-! ## Dropped tokens -/

theorem withoutBare_eq_self_iff : withoutBare ts = ts ↔ ∀ t ∈ ts, t ≠ ['-'] ∧ t ≠ ['_'] := by
  simp [withoutBare]

theorem survivors_eq_self_iff : survivors ts = ts ↔ ∀ t ∈ ts.tail, isKept t = true := by
  cases ts with
  | nil => simp [survivors]
  | cons t ts => rw [survivors, List.cons_inj_right, List.filter_eq_self, List.tail_cons]

theorem survivors_sublist (ts : List (List Char)) : (survivors ts).Sublist ts := by
  cases ts with
  | nil => exact .slnil
  | cons t ts => exact List.filter_sublist.cons_cons t

theorem mem_survivors {t : List Char} (ht : t ∈ ts) (hkept : isKept t = true) : t ∈ survivors ts := by
  cases ts with
  | nil => cases ht
  | cons u us =>
    rcases List.mem_cons.mp ht with rfl | ht
    · exact List.mem_cons_self
    · exact List.mem_cons_of_mem _ (List.mem_filter.mpr ⟨ht, hkept⟩)

/-- Bare tokens are not taken for template syntax: they are there for cleaning if they are there at all. -/
theorem withoutBare_survivors_iff :
    withoutBare (survivors ts) = survivors ts ↔ ∀ t ∈ ts, t ≠ ['-'] ∧ t ≠ ['_'] := by
  rw [withoutBare_eq_self_iff]
  constructor
  · intro h t ht
    have hhyphen : t ≠ ['-'] := by
      rintro rfl
      exact (h _ (mem_survivors ht rfl)).1 rfl
    have hunderscore : t ≠ ['_'] := by
      rintro rfl
      exact (h _ (mem_survivors ht rfl)).2 rfl
    exact ⟨hhyphen, hunderscore⟩
  · exact fun h t ht => h t ((survivors_sublist ts).subset ht)

/-- No token is dropped if and only if none is bare and none but the first is taken for template
syntax. -/
theorem withoutBare_survivors_eq_self_iff : withoutBare (survivors ts) = ts ↔
    (∀ t ∈ ts, t ≠ ['-'] ∧ t ≠ ['_']) ∧ ∀ t ∈ ts.tail, isKept t = true := by
  constructor
  · intro h
    -- both steps only drop tokens, so neither of them drops any
    have hclean : (withoutBare (survivors ts)).Sublist (survivors ts) := List.filter_sublist
    rw [h] at hclean
    have hall : survivors ts = ts := (survivors_sublist ts).antisymm hclean
    rw [hall] at h
    exact ⟨withoutBare_eq_self_iff.mp h, survivors_eq_self_iff.mp hall⟩
  · rintro ⟨hbare, hkept⟩
    rw [survivors_eq_self_iff.mpr hkept, withoutBare_eq_self_iff.mpr hbare]

/-! ## Elements that stay as they are -/

theorem div_injective (a : ClassSpelling) : Function.Injective a.div := by
  intro v w h
  have htext : a.text v = a.text w := List.append_cancel_right (List.append_cancel_left h)
  have hvalue := (List.cons.inj (List.append_cancel_left htext)).2
  exact List.append_cancel_right (List.append_cancel_left hvalue)

theorem cleanedDiv_cons (t : List Char) (ts : List (List Char)) :
    cleanedDiv (t :: ts) = canonical.div ([' '].intercalate (t :: ts)) :=
  congrArg canonical.div (intercalate_cons t ts).symm

/-- A cleaned element has the tokens that it was made with. -/
theorem cleanedDiv_eq_iff (hus : ∀ t ∈ us, IsToken t) (hts : ∀ t ∈ ts, IsToken t) :
    cleanedDiv us = canonical.div ([' '].intercalate ts) ↔ us ≠ [] ∧ us = ts := by
  cases us with
  | nil =>
    refine ⟨fun h => ?_, fun h => absurd rfl h.1⟩
    have hempty : cleanedDiv [] = "<div ".toList ++ "></div>".toList := rfl
    rw [hempty, div_eq] at h
    -- there is no attribute
    have hhead : some '>' = some 'c' := congrArg List.head? (List.append_cancel_left h)
    exact absurd hhead (by decide)
  | cons u us =>
    rw [cleanedDiv_cons, (div_injective canonical).eq_iff]
    refine ⟨fun h => ⟨List.cons_ne_nil _ _, ?_⟩, fun h => congrArg _ h.2⟩
    rw [← wordsOf_value fun w hw => isInnerWord_of_isToken (hus w hw), h,
      wordsOf_value fun w hw => isInnerWord_of_isToken (hts w hw)]

/-- Sanitizing keeps an element with a class attribute in the canonical spelling if and only if it has
tokens and none of them is dropped. -/
theorem sanitize_canonical_eq_self_iff (hts : ∀ t ∈ ts, IsToken t) :
    sanitize (canonical.div ([' '].intercalate ts)) = canonical.div ([' '].intercalate ts) ↔
      ts ≠ [] ∧ (∀ t ∈ ts, t ≠ ['-'] ∧ t ≠ ['_']) ∧ ∀ t ∈ ts.tail, isKept t = true := by
  have hclean : ∀ t ∈ withoutBare (survivors ts), IsToken t := fun t ht =>
    isToken_of_mem_survivors hts t (List.mem_of_mem_filter ht)
  rw [sanitize_div canonical hts, if_neg (by decide), cleanedDiv_eq_iff hclean hts,
    ← withoutBare_survivors_eq_self_iff]
  refine and_congr_left fun h => ?_
  rw [h]

/-- Tokens that come close to template syntax, or that are taken for it but stand first. -/
theorem sanitize_canonical_of_close_tokens :
    let ts := ["v-if".toList, "onclick".toList, "v-".toList, "on-Click".toList, "--".toList]
    (∀ t ∈ ts, IsToken t) ∧
      sanitize (canonical.div ([' '].intercalate ts)) = canonical.div ([' '].intercalate ts) := by
  intro ts
  have hts : ∀ t ∈ ts, IsToken t := by decide
  exact ⟨hts, (sanitize_canonical_eq_self_iff hts).mpr (by decide)⟩

/-- A token like an event handler is dropped behind another one. -/
theorem sanitize_canonical_of_handler_token :
    let ts := ["a".toList, "onClick".toList]
    (ts ≠ [] ∧ ∀ t ∈ ts, IsToken t ∧ t ≠ ['-'] ∧ t ≠ ['_']) ∧
      sanitize (canonical.div ([' '].intercalate ts)) = "<div class=\"a\"></div>".toList ∧
      canonical.div ([' '].intercalate ts) = "<div class=\"a onClick\"></div>".toList := by
  decide +kernel

/-! ## Tokens that are read -/

/-- Without the sign of references a value stands for itself. -/
theorem resolveValue_eq_self (hv : '&' ∉ v) : resolveValue v = v := by
  refine Regex.replaceAll_of_demand (d := '&') ?_
  rw [List.count_eq_zero.mpr hv]
  decide

/-- An attribute in quotes of either kind is read with its value. -/
theorem read_div {f : ValueForm} (hf : f.isBraced = false) (hv : IsInner v) (hmark : '&' ∉ v) :
    Node.read (div ⟨.plain, f⟩ v) = .ok [.element "div" [("class", String.ofList v)] []] := by
  have hquote : f.quote = '"' ∨ f.quote = '\'' := by
    cases f with
    | double => exact Or.inl rfl
    | single => exact Or.inr rfl
    | bracedDouble | bracedSingle | bracedTemplate => cases hf
  let a : Assignment := ⟨"class".toList, f.quote :: (v ++ [f.quote])⟩
  have hkey : Writable "class".toList := by decide
  have hreadable : ReadableAll [a] :=
    List.forall_mem_singleton.mpr ⟨hkey, f.quote, v, hquote, rfl, hv.quote_not_mem f⟩
  have hstore : [a].foldl Assignment.store [] = [("class", String.ofList v)] := by
    have hvalue : String.ofList (resolveValue (Token.unquote a.quoted)) = String.ofList v := by
      rw [Token.unquote_quoted hquote, resolveValue_eq_self hmark]
    have hlower : Text.lower (String.ofList a.key) = "class" :=
      congrArg String.ofList (show Text.lowerChars "class".toList = "class".toList by decide)
    rw [List.foldl_cons, List.foldl_nil, Assignment.store, hvalue, hlower]
    rfl
  have hdiv : div ⟨.plain, f⟩ v = ('<' :: ("div".toList ++ (assignmentsText [a] ++ ['>']))) ++
      '<' :: '/' :: ("div".toList ++ ['>']) := by
    rw [div_eq, text, ValueForm.opening, ValueForm.closing, hf]
    simp [assignmentsText, Assignment.text, a, ClassAttribute.name]
  have hname : Token.Nameable "div".toList := by decide
  have hread := Node.read_assignments hname hreadable rfl rfl
  rw [hdiv, hread, hstore]
  rfl

/-- The class tokens of the elements that are read when an element with the tokens in its class
attribute has been sanitized. -/
def readTokens (a : ClassSpelling) (ts : List (List Char)) :
    Except MarkupError (List (List String)) :=
  (Node.read (sanitize (a.div ([' '].intercalate ts)))).map (List.map Node.classTokens)

theorem classTokens_div (hts : ∀ t ∈ ts, IsInnerWord t) :
    (Node.element "div" [("class", String.ofList ([' '].intercalate ts))] []).classTokens =
      ts.map String.ofList := by
  have hwords : Text.words (String.ofList ([' '].intercalate ts)) = ts.map String.ofList := by
    rw [Text.words, String.toList_ofList, wordsOf_value hts]
  exact hwords

theorem not_mem_lined {d : Char} (hd : d ≠ ' ') (hts : ∀ t ∈ ts, d ∉ t) : d ∉ lined ts := by
  intro hmem
  obtain ⟨t, ht, hmem⟩ := List.mem_flatMap.mp hmem
  rcases List.mem_cons.mp hmem with heq | hmem
  · exact hd heq
  · exact hts t ht hmem

theorem map_read_div {f : ValueForm} (hf : f.isBraced = false) (hts : ∀ t ∈ ts, IsInnerWord t)
    (hmark : ∀ t ∈ ts, '&' ∉ t) :
    (Node.read (div ⟨.plain, f⟩ ([' '].intercalate ts))).map (List.map Node.classTokens) =
      .ok [ts.map String.ofList] := by
  have hwords := classTokens_div hts
  have hvalue : IsInner ([' '].intercalate ts) ∧ '&' ∉ [' '].intercalate ts := by
    cases ts with
    | nil => exact ⟨fun c _ => List.not_mem_nil, List.not_mem_nil⟩
    | cons t ts =>
      rw [List.forall_mem_cons] at hts hmark
      rw [intercalate_cons]
      exact ⟨isInner_lined hts.1.inner hts.2,
        List.not_mem_append hmark.1 (not_mem_lined (by decide) hmark.2)⟩
  rw [read_div hf hvalue.1 hvalue.2, Except.map, List.map_singleton, hwords]

theorem map_read_cleanedDiv (hts : ∀ t ∈ ts, IsInnerWord t) (hmark : ∀ t ∈ ts, '&' ∉ t) :
    (Node.read (cleanedDiv ts)).map (List.map Node.classTokens) = .ok [ts.map String.ofList] := by
  cases ts with
  | nil => rfl
  | cons t ts =>
    rw [cleanedDiv_cons]
    exact map_read_div rfl hts hmark

/-- The tokens that are read in every spelling: those that are not taken for template syntax, and of
these all but the bare ones, which stay in single quotes. -/
theorem readTokens_eq (a : ClassSpelling) (hts : ∀ t ∈ ts, IsToken t) :
    a.readTokens ts = .ok [(if a = ⟨.plain, .single⟩ then survivors ts
      else withoutBare (survivors ts)).map String.ofList] := by
  have hkept : ∀ t ∈ survivors ts, IsInnerWord t ∧ '&' ∉ t := fun t ht =>
    have htoken := isToken_of_mem_survivors hts t ht
    ⟨isInnerWord_of_isToken htoken, htoken.not_mem (by decide)⟩
  have hclean : ∀ t ∈ withoutBare (survivors ts), IsInnerWord t ∧ '&' ∉ t := fun t ht =>
    hkept t (List.mem_of_mem_filter ht)
  rw [readTokens, sanitize_div a hts]
  split
  · rename_i h
    rw [h, map_read_div rfl (fun t ht => (hkept t ht).1) fun t ht => (hkept t ht).2]
  · exact map_read_cleanedDiv (fun t ht => (hclean t ht).1) fun t ht => (hclean t ht).2

/-- All spellings are read, and with the same tokens, if and only if no token is a bare hyphen or
underscore. -/
theorem readTokens_agree_iff (hts : ∀ t ∈ ts, IsToken t) :
    (∃ tokens, ∀ a : ClassSpelling, a.readTokens ts = .ok [tokens]) ↔
      ∀ t ∈ ts, t ≠ ['-'] ∧ t ≠ ['_'] := by
  rw [← withoutBare_survivors_iff]
  constructor
  · rintro ⟨tokens, h⟩
    -- of these two spellings one is cleaned and the other is not
    have hsame := (h canonical).trans (h ⟨.plain, .single⟩).symm
    rw [readTokens_eq _ hts, readTokens_eq _ hts, if_neg (by decide), if_pos rfl] at hsame
    have hlists := List.singleton_inj.mp (Except.ok.inj hsame)
    exact List.map_injective_iff.mpr (fun _ _ => String.ofList_inj.mp) hlists
  · intro h
    refine ⟨(survivors ts).map String.ofList, fun a => ?_⟩
    rw [readTokens_eq a hts, h, ite_self]

/-- Tokens that are taken for template syntax are dropped in all spellings. -/
theorem readTokens_agree_of_handler_token :
    let ts := ["a".toList, "onClick".toList, "v-".toList]
    (∀ t ∈ ts, IsToken t) ∧ ∃ tokens, ∀ a : ClassSpelling, a.readTokens ts = .ok [tokens] := by
  intro ts
  have hts : ∀ t ∈ ts, IsToken t := by decide
  exact ⟨hts, (readTokens_agree_iff hts).mpr (by decide)⟩

/-- A bare hyphen is a token in single quotes and none in double quotes. -/
theorem readTokens_of_stray_hyphen :
    let ts := ["a".toList, "-".toList]
    (∀ t ∈ ts, IsToken t) ∧ readTokens ⟨.plain, .single⟩ ts = .ok [["a", "-"]] ∧
      readTokens canonical ts = .ok [["a"]] := by
  decide +kernel

end BlockMarkup.Markup.ClassSpelling
