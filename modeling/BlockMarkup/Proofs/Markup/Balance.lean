import Mathlib.Data.List.Basic
import BlockMarkup.Markup.RootScan

/-! # Balanced tags

The tags of a text are gone through with a stack of the names that are open. Nothing is reported
exactly if the tags are well nested (`unbalancedTags_eq_none_iff`): every tag that opens is closed by
one of its name, the last one first, and only page tags may be closed that are not open. What is
reported otherwise can be read off the tags and the stacks on which they stand (`unpaired_eq`).

The search for the root of a page goes through the same tags and counts how many are open. Where
nothing is reported, the count is the height of the stack, so the root that is found is the first page
or body tag that opens on an empty stack (`explicitRoot_of_balanced`).
-/

namespace BlockMarkup.Markup

namespace TagMark

/-- Whether the tag opens or closes an element. -/
def counts (t : TagMark) : Bool := t.closing || t.opens

/-- The first tag opens an element and the second closes one of its name. -/
structure ClosedBy (t u : TagMark) : Prop where
  opens : t.opens = true
  closing : u.closing = true
  name_eq : u.name = t.name

/-- Whether the tag opens a page or its body. -/
def opensPage (t : TagMark) : Bool := t.opens && (t.name = "html" || t.name = "body")

variable {t u : TagMark}

theorem closing_of_opens (h : t.opens = true) : t.closing = false := by
  simp only [opens, Bool.and_eq_true, Bool.not_eq_true'] at h
  exact h.1.1

theorem counts_of_closing (h : t.closing = true) : t.counts = true := by
  rw [counts, h, Bool.true_or]

end TagMark

/-! ## Well nested tags -/

/-- Tags of which every one that opens is closed by one of its name, the last one first. -/
inductive Nested : List TagMark → Prop where
  | nil : Nested []
  | element {t u : TagMark} {inner rest : List TagMark} :
      t.ClosedBy u → Nested inner → Nested rest → Nested (t :: (inner ++ u :: rest))

/-- Nested tags, beside which page tags may be closed that are not open. -/
inductive WellNested : List TagMark → Prop where
  | nil : WellNested []
  | element {t u : TagMark} {inner rest : List TagMark} :
      t.ClosedBy u → Nested inner → WellNested rest → WellNested (t :: (inner ++ u :: rest))
  | stray {t : TagMark} {rest : List TagMark} :
      t.closing = true → t.name ∈ pageTags → WellNested rest → WellNested (t :: rest)

/-- Tags that are well nested behind elements that are open, innermost first. -/
inductive WellNestedIn : List String → List TagMark → Prop where
  | top {ts : List TagMark} : WellNested ts → WellNestedIn [] ts
  | close {u : TagMark} {stack : List String} {inner rest : List TagMark} :
      u.closing = true → Nested inner → WellNestedIn stack rest →
        WellNestedIn (u.name :: stack) (inner ++ u :: rest)

variable {stack : List String} {t u : TagMark} {ts inner rest : List TagMark}

/-- Whatever is open, an element may come first. -/
theorem WellNestedIn.element (htu : t.ClosedBy u) (hinner : Nested inner)
    (h : WellNestedIn stack rest) : WellNestedIn stack (t :: (inner ++ u :: rest)) := by
  cases h with
  | top h => exact .top (.element htu hinner h)
  | @close v stack inner' rest' hv hinner' hrest =>
    have hfirst := WellNestedIn.close hv (.element htu hinner hinner') hrest
    rwa [List.cons_append, List.append_assoc, List.cons_append] at hfirst

/-! ## The stack -/

/-- The names that are open after a tag. -/
def stackAfter (stack : List String) (t : TagMark) : List String :=
  if t.closing then
    if stack.contains t.name then (stack.dropWhile (· != t.name)).drop 1 else stack
  else if t.opens then t.name :: stack
  else stack

/-- The names that a tag leaves without an end tag. -/
def lostAt (stack : List String) (t : TagMark) : List String :=
  if t.closing && stack.contains t.name then stack.takeWhile (· != t.name) else []

/-- The name of a tag that closes what is not open, page tags apart where nothing is. -/
def strayAt (stack : List String) (t : TagMark) : List String :=
  if t.closing && !stack.contains t.name && !(stack.isEmpty && pageTags.contains t.name) then
    [t.name]
  else []

/-- One tag after the other. -/
theorem unpaired_cons (stack : List String) (t : TagMark) (rest : List TagMark) :
    unpaired stack (t :: rest) =
      ⟨lostAt stack t ++ (unpaired (stackAfter stack t) rest).missing,
        strayAt stack t ++ (unpaired (stackAfter stack t) rest).unexpected⟩ := by
  rw [unpaired, lostAt, strayAt, stackAfter]
  cases hclosing : t.closing with
  | false => simp
  | true =>
    cases hopen : stack.contains t.name with
    | true => simp
    | false => cases hpage : stack.isEmpty && pageTags.contains t.name <;> simp

/-- A tag that has a partner or needs none: it closes nothing but the innermost open element, and page
tags where nothing is open. -/
def Fits (stack : List String) (t : TagMark) : Prop :=
  t.closing = true → stack.head? = some t.name ∨ stack = [] ∧ t.name ∈ pageTags

theorem fits_iff : Fits stack t ↔ lostAt stack t = [] ∧ strayAt stack t = [] := by
  rw [Fits, lostAt, strayAt]
  cases t.closing with
  | false => simp
  | true =>
    cases stack with
    | nil => simp
    | cons n stack =>
      by_cases hn : n = t.name
      · simp [hn]
      · have hne : t.name ≠ n := fun h => hn h.symm
        by_cases hmem : t.name ∈ stack <;> simp [hn, hne, hmem]

theorem stackAfter_of_closing (ht : t.closing = true) (h : Fits stack t) :
    stackAfter stack t = stack.tail := by
  rw [stackAfter, if_pos ht]
  cases stack with
  | nil => rfl
  | cons n stack =>
    rcases h ht with hhead | ⟨hnil, _⟩
    · cases hhead
      simp
    · cases hnil

theorem stackAfter_of_opens (ht : t.opens = true) : stackAfter stack t = t.name :: stack := by
  rw [stackAfter, if_neg (by rw [TagMark.closing_of_opens ht]; simp), if_pos ht]

theorem stackAfter_of_not_counts (ht : t.counts = false) : stackAfter stack t = stack := by
  rw [TagMark.counts, Bool.or_eq_false_iff] at ht
  rw [stackAfter, ht.1, ht.2]
  rfl

/-- Nothing is reported of the tags behind the open elements. -/
def Balanced (stack : List String) (ts : List TagMark) : Prop := unpaired stack ts = ⟨[], []⟩

theorem balanced_nil : Balanced stack [] ↔ stack = [] := by
  simp [Balanced, unpaired]

theorem balanced_cons :
    Balanced stack (t :: rest) ↔ Fits stack t ∧ Balanced (stackAfter stack t) rest := by
  rw [Balanced, Balanced, unpaired_cons, fits_iff]
  cases unpaired (stackAfter stack t) rest
  simp only [UnbalancedTags.mk.injEq, List.append_eq_nil_iff]
  tauto

theorem unbalancedTags_eq_none {s : List Char} :
    unbalancedTags s = none ↔ Balanced [] (tagMarks s) := by
  rw [unbalancedTags, Balanced]
  cases unpaired [] (tagMarks s)
  simp

/-- A tag that opens, and the tag of its name that closes: as if both were not there. -/
theorem balanced_opens (ht : t.opens = true) :
    Balanced stack (t :: rest) ↔ Balanced (t.name :: stack) rest := by
  rw [balanced_cons, stackAfter_of_opens ht]
  refine and_iff_right fun hclosing => ?_
  rw [TagMark.closing_of_opens ht] at hclosing
  cases hclosing

theorem balanced_closes (hu : u.closing = true) :
    Balanced (u.name :: stack) (u :: rest) ↔ Balanced stack rest := by
  have hfits : Fits (u.name :: stack) u := fun _ => Or.inl rfl
  rw [balanced_cons, stackAfter_of_closing hu hfits]
  exact and_iff_right hfits

theorem balanced_stray (ht : t.closing = true) (hpage : t.name ∈ pageTags) :
    Balanced [] (t :: rest) ↔ Balanced [] rest := by
  have hfits : Fits [] t := fun _ => Or.inr ⟨rfl, hpage⟩
  rw [balanced_cons, stackAfter_of_closing ht hfits]
  exact and_iff_right hfits

theorem balanced_filter : Balanced stack (ts.filter TagMark.counts) ↔ Balanced stack ts := by
  induction ts generalizing stack with
  | nil => rfl
  | cons t ts ih =>
    cases ht : t.counts with
    | true =>
      rw [List.filter_cons_of_pos ht, balanced_cons, balanced_cons, ih]
    | false =>
      have hfits : Fits stack t := fun hclosing => by
        rw [TagMark.counts_of_closing hclosing] at ht
        cases ht
      rw [List.filter_cons_of_neg (by simp [ht]), ih, balanced_cons, stackAfter_of_not_counts ht]
      exact (and_iff_right hfits).symm

/-! ## Balanced tags are well nested -/

theorem Nested.balanced_append (h : Nested inner) :
    Balanced stack (inner ++ rest) ↔ Balanced stack rest := by
  induction h generalizing stack rest with
  | nil => rfl
  | @element t u inner after htu _ _ ihinner ihafter =>
    rw [List.cons_append, List.append_assoc, List.cons_append, balanced_opens htu.opens, ihinner,
      ← htu.name_eq, balanced_closes htu.closing, ihafter]

theorem WellNested.balanced (h : WellNested ts) : Balanced [] ts := by
  induction h with
  | nil => exact balanced_nil.mpr rfl
  | element htu hinner _ ih =>
    rwa [balanced_opens htu.opens, hinner.balanced_append, ← htu.name_eq,
      balanced_closes htu.closing]
  | stray ht hpage _ ih => rwa [balanced_stray ht hpage]

/-- Going through balanced tags, each tag finds its place: one that closes ends the innermost open
element, and one that opens begins an element that the tags behind it close. -/
theorem Balanced.wellNestedIn (h : Balanced stack ts) (hts : ∀ t ∈ ts, t.counts = true) :
    WellNestedIn stack ts := by
  induction ts generalizing stack with
  | nil =>
    rw [balanced_nil.mp h]
    exact .top .nil
  | cons t rest ih =>
    rw [List.forall_mem_cons] at hts
    cases hclosing : t.closing with
    | true =>
      obtain ⟨hfits, hrest⟩ := balanced_cons.mp h
      rw [stackAfter_of_closing hclosing hfits] at hrest
      have hbehind := ih hrest hts.2
      rcases hfits hclosing with hhead | ⟨rfl, hpage⟩
      · obtain ⟨tail, rfl⟩ : ∃ tail, stack = t.name :: tail := List.head?_eq_some_iff.mp hhead
        exact .close hclosing .nil hbehind
      · cases hbehind with
        | top hrest => exact .top (.stray hclosing hpage hrest)
    | false =>
      have hopens : t.opens = true := by
        simpa [TagMark.counts, hclosing] using hts.1
      have hbehind := ih ((balanced_opens hopens).mp h) hts.2
      generalize hname : t.name = n at hbehind
      cases hbehind with
      | close hu hinner hrest => exact hrest.element ⟨hopens, hu, hname.symm⟩ hinner

/-- Nothing is reported exactly if the tags that open or close something are well nested. -/
theorem unbalancedTags_eq_none_iff (s : List Char) :
    unbalancedTags s = none ↔ WellNested ((tagMarks s).filter TagMark.counts) := by
  rw [unbalancedTags_eq_none, ← balanced_filter]
  constructor
  · intro h
    have hnested := h.wellNestedIn fun t ht => (List.mem_filter.mp ht).2
    cases hnested with
    | top h => exact h
  · exact WellNested.balanced

/-! ## The depth of a tag -/

/-- The tags with the names that are open where they stand. -/
def openAt : List String → List TagMark → List (List String × TagMark)
  | _, [] => []
  | stack, t :: rest => (stack, t) :: openAt (stackAfter stack t) rest

/-- What is reported comes from the tags where they stand and from what is open at the end. -/
theorem unpaired_eq (stack : List String) (ts : List TagMark) :
    unpaired stack ts =
      ⟨(openAt stack ts).flatMap (fun p => lostAt p.1 p.2) ++ ts.foldl stackAfter stack,
        (openAt stack ts).flatMap fun p => strayAt p.1 p.2⟩ := by
  induction ts generalizing stack with
  | nil => rfl
  | cons t rest ih =>
    rw [unpaired_cons, ih, openAt, List.flatMap_cons, List.flatMap_cons, List.foldl_cons,
      List.append_assoc]

/-- The first page or body tag that opens where nothing is open. -/
def pageAtTop (ts : List TagMark) : Option TagMark :=
  ((openAt [] ts).find? fun p => p.1.isEmpty && p.2.opensPage).map Prod.snd

/-- A tag that fits changes the height of the stack as it changes the count. -/
theorem length_stackAfter (h : Fits stack t) : (stackAfter stack t).length =
    if t.closing then stack.length - 1 else if t.opens then stack.length + 1 else stack.length := by
  cases hclosing : t.closing with
  | true =>
    rw [stackAfter_of_closing hclosing h, List.length_tail]
    rfl
  | false =>
    cases hopens : t.opens with
    | true =>
      rw [stackAfter_of_opens hopens]
      rfl
    | false =>
      rw [stackAfter_of_not_counts (by rw [TagMark.counts, hclosing, hopens]; rfl)]
      rfl

/-- The count is the height of the stack as long as tags fit. -/
theorem explicitRootFrom_length (h : Balanced stack ts) : explicitRootFrom stack.length ts =
    ((openAt stack ts).find? fun p => p.1.isEmpty && p.2.opensPage).map fun p => p.2.name := by
  induction ts generalizing stack with
  | nil => rfl
  | cons t rest ih =>
    obtain ⟨hfits, hrest⟩ := balanced_cons.mp h
    have hlength := length_stackAfter hfits
    have hbehind := ih hrest
    rw [explicitRootFrom, openAt]
    cases hclosing : t.closing with
    | true =>
      have hopens : t.opens = false := by
        simp [TagMark.opens, hclosing]
      rw [hlength, hclosing] at hbehind
      simpa [TagMark.opensPage, hopens] using hbehind
    | false =>
      cases hopens : t.opens with
      | false =>
        rw [hlength, hclosing, hopens] at hbehind
        simpa [TagMark.opensPage, hopens] using hbehind
      | true =>
        rw [hlength, hclosing, hopens] at hbehind
        -- a page is opened only where nothing else is open
        by_cases hpage : stack.length = 0 ∧ (t.name = "html" ∨ t.name = "body")
        · have hnil : stack = [] := List.length_eq_zero_iff.mp hpage.1
          simp [TagMark.opensPage, hopens, hnil, hpage.2]
        · have hother : (stack.isEmpty && t.opensPage) = false := by
            simpa [TagMark.opensPage, hopens, List.isEmpty_iff_length_eq_zero] using hpage
          rw [List.find?_cons_of_neg (by rw [hother]; simp), if_neg (by simp), if_neg hpage]
          simpa using hbehind

/-- Where nothing is reported, the root that is found is the first page or body tag that opens on an
empty stack. -/
theorem explicitRoot_of_balanced {s : List Char} (h : unbalancedTags s = none) :
    explicitRoot s = (pageAtTop (tagMarks s)).map TagMark.name := by
  have hroot := explicitRootFrom_length (unbalancedTags_eq_none.mp h)
  rw [pageAtTop, Option.map_map]
  exact hroot

/-- A page tag in a section, a body tag that closes itself, an end tag of a head, and then a body. -/
theorem explicitRoot_of_late_body :
    let s := "<main><html></html></main></head><body /><br><BODY a><p></p></BODY>".toList
    unbalancedTags s = none ∧ (pageAtTop (tagMarks s)).map TagMark.name = some "body" ∧
      explicitRoot s = some "body" := by
  intro s
  have hbalanced : unbalancedTags s = none := by decide +kernel
  have hpage : (pageAtTop (tagMarks s)).map TagMark.name = some "body" := by decide +kernel
  exact ⟨hbalanced, hpage, (explicitRoot_of_balanced hbalanced).trans hpage⟩

end BlockMarkup.Markup
