import BlockMarkup.Proofs.Markup.Respelled
import BlockMarkup.Proofs.Markup.TagScan
import BlockMarkup.Proofs.Markup.TemplateWords
import BlockMarkup.Proofs.Text.Words

/-! # Spellings of a class attribute

A class attribute can be given in ten spellings: two names, and five forms of its value. Sanitizing
turns one spelling after the other into the canonical one, `class="..."`, with the pattern of that
spelling. The pattern matches an attribute of its own spelling as a whole and one of any other spelling
nowhere (`replaceAll_pattern`), so what becomes of an attribute can be followed on spellings alone.
-/

namespace BlockMarkup.Markup

open BlockMarkup.Regex (CharSet Cursor Eats Refuses Rewrites Silent)
open BlockMarkup.Regex.Cursor (spot)
open Token (eats_char eats_blanks_nil yields_blanks yields_char)

variable {r : Regex} {d : Char} {before rest cs v p q : List Char}

/-! ## Patterns that begin with a character -/

theorem BeginsWith.silent (h : BeginsWith d r) (hd : d ∉ cs) : Silent r before cs rest := by
  rintro p c q rfl
  cases hrun : Regex.run r (spot (p.reverse ++ before) (c :: (q ++ rest)) []) some with
  | none => rfl
  | some t =>
    have hhead := h _ _ _ hrun
    cases hhead
    exact absurd (by simp) hd

theorem BeginsWith.run_nil (h : BeginsWith d r) :
    Regex.run r (spot before [] []) some = none := by
  cases hrun : Regex.run r (spot before [] []) some with
  | none => rfl
  | some t => cases h _ _ _ hrun

theorem BeginsWith.rewrites {f : Regex.Match → List Char} (h : BeginsWith d r) (hq : d ∉ q) :
    Rewrites r f before q q := by
  have hsilent : Silent r before q [] := h.silent hq
  have hskips := Rewrites.skips (f := f) hsilent (.nil h.run_nil)
  rwa [List.append_nil] at hskips

/-- The only match is replaced, if the pattern begins with a character that stands nowhere else. -/
theorem BeginsWith.replaceAll_once {f : Regex.Match → List Char} {groups : List (Nat × Regex.Capture)}
    (h : BeginsWith d r) (hp : d ∉ p) (hq : d ∉ q) (hcs : cs ≠ [])
    (hmatch : Eats r cs p.reverse q [] groups) :
    r.replaceAll f (p ++ (cs ++ q)) =
      p ++ (f ⟨spot p.reverse (cs ++ q) [], spot (cs.reverse ++ p.reverse) q groups⟩ ++ q) := by
  have hhit := Rewrites.hit (f := f) hcs (hmatch some _ rfl) (h.rewrites hq)
  rw [← List.append_nil p.reverse] at hhit
  have hall := Rewrites.skips (h.silent hp) hhit
  rw [List.append_nil] at hall
  exact hall.replaceAll

theorem beginsWith_text {t : String} {cs : List Char} (h : t.toList = d :: cs) :
    BeginsWith d (.text t) := by
  intro s k u hu
  obtain ⟨w, hw, -⟩ := Regex.yields_text s k u hu
  rw [hw, h]
  rfl

/-! ## Spellings -/

/-- How the value of an attribute is written: in quotes or backticks, bare or in braces. -/
inductive ValueForm where
  | double
  | single
  | bracedDouble
  | bracedSingle
  | bracedTemplate
deriving DecidableEq, Repr

namespace ValueForm

/-- The sign on both sides of the value. -/
def quote : ValueForm → Char
  | .double | .bracedDouble => '"'
  | .single | .bracedSingle => '\''
  | .bracedTemplate => '\x60'

/-- Whether the value stands in braces. -/
def isBraced : ValueForm → Bool
  | .double | .single => false
  | .bracedDouble | .bracedSingle | .bracedTemplate => true

/-- What stands before the value. -/
def opening (f : ValueForm) : List Char := if f.isBraced then ['\x7b', f.quote] else [f.quote]

/-- What stands behind the value. -/
def closing (f : ValueForm) : List Char := if f.isBraced then [f.quote, '\x7d'] else [f.quote]

/-- The pattern for a value in this form; its content is group 1. -/
def pattern (f : ValueForm) : Regex :=
  if f.isBraced then Pattern.braced (Pattern.quoted f.quote) else Pattern.quoted f.quote

theorem eq_of_quote_eq {f g : ValueForm} (hbraced : f.isBraced = g.isBraced)
    (hquote : f.quote = g.quote) : f = g := by
  cases f <;> cases g <;> simp_all [isBraced, quote]

end ValueForm

/-- A spelling of a class attribute. -/
structure ClassSpelling where
  key : ClassAttribute
  form : ValueForm
deriving DecidableEq, Repr

namespace ClassSpelling

variable {a b : ClassSpelling}

/-- The spelling that sanitizing reduces the others to. -/
def canonical : ClassSpelling := ⟨.plain, .double⟩

/-- A class attribute in the spelling. -/
def text (a : ClassSpelling) (v : List Char) : List Char :=
  a.key.name.toList ++ '=' :: (a.form.opening ++ (v ++ a.form.closing))

/-- An element with a class attribute in the spelling. -/
def div (a : ClassSpelling) (v : List Char) : List Char :=
  "<div ".toList ++ (a.text v ++ "></div>".toList)

theorem div_eq (a : ClassSpelling) (v : List Char) :
    a.div v = "<div ".toList ++ (a.text v ++ "></div>".toList) := rfl

example : div ⟨.camel, .bracedTemplate⟩ "a b".toList =
    "<div className=\x7b\x60a b\x60\x7d></div>".toList := rfl

/-- The pattern for class attributes in the spelling. -/
def pattern (a : ClassSpelling) : Regex := Pattern.assigned a.key.name ++ a.form.pattern

/-- The spelling after attributes in one spelling have been made canonical. -/
def respell (a b : ClassSpelling) : ClassSpelling := if b = a then canonical else b

/-! ## Matches of the own spelling -/

theorem eats_assigned {name : String} {groups : List (Nat × Regex.Capture)}
    (hrest : ∀ c, rest.head? = some c → Text.isBlank c = false) :
    Eats (Pattern.assigned name) (name.toList ++ ['=']) before rest groups groups := by
  have hname : Eats (.text name) name.toList before (['='] ++ rest) groups groups := Regex.eats_text
  have hall : Eats (Pattern.assigned name) (((name.toList ++ []) ++ ['=']) ++ []) before rest groups
      groups :=
    ((hname.seq_nil (eats_blanks_nil fun c hc => by cases hc; rfl)).seq eats_char).seq_nil
      (eats_blanks_nil hrest)
  simpa only [List.append_nil] using hall

theorem eats_quotedGroup {c : Char} (h : c ∉ v) :
    Eats (Pattern.quoted c) (([c] ++ v) ++ [c]) before rest [] [(1, .of v (c :: rest))] :=
  (eats_char.seq (eats_allBut h).group).seq eats_char

theorem isBlank_quote (f : ValueForm) : Text.isBlank f.quote = false := by cases f <;> rfl

theorem isBlank_of_head?_opening {f : ValueForm} {c : Char}
    (h : (f.opening ++ rest).head? = some c) : Text.isBlank c = false := by
  rw [ValueForm.opening] at h
  cases hbraced : f.isBraced <;> rw [hbraced] at h <;> cases h
  · exact isBlank_quote f
  · rfl

theorem exists_eats_form {f : ValueForm} (h : f.quote ∉ v) (before rest : List Char) : ∃ rest',
    Eats f.pattern (f.opening ++ (v ++ f.closing)) before rest [] [(1, .of v rest')] := by
  rw [ValueForm.pattern, ValueForm.opening, ValueForm.closing]
  cases f.isBraced with
  | false =>
    have hquoted : Eats (Pattern.quoted f.quote) (([f.quote] ++ v) ++ [f.quote]) before rest []
        [(1, .of v (f.quote :: rest))] :=
      eats_quotedGroup h
    rw [List.append_assoc] at hquoted
    exact ⟨_, hquoted⟩
  | true =>
    have hopen : Eats (Pattern.char '\x7b' ++ .blanks) (['\x7b'] ++ []) before
        ((([f.quote] ++ v) ++ [f.quote]) ++ (['\x7d'] ++ rest)) [] [] :=
      eats_char.seq_nil (eats_blanks_nil fun c hc => by
        cases hc
        exact isBlank_quote f)
    have hclose : ∀ before groups, Eats (Pattern.char '\x7d') ['\x7d'] before rest groups groups :=
      fun _ _ => eats_char
    have hbraced := ((hopen.seq (eats_quotedGroup h)).seq_nil
      (eats_blanks_nil fun c hc => by cases hc; rfl)).seq (hclose _ _)
    simp only [List.append_nil, List.append_assoc] at hbraced
    exact ⟨_, hbraced⟩

theorem exists_eats_pattern (h : a.form.quote ∉ v) (before rest : List Char) : ∃ rest',
    Eats a.pattern (a.text v) before rest [] [(1, .of v rest')] := by
  obtain ⟨rest', hform⟩ := exists_eats_form h
    ((a.key.name.toList ++ ['=']).reverse ++ before) rest
  have hsign : Eats (Pattern.assigned a.key.name) (a.key.name.toList ++ ['=']) before
      ((a.form.opening ++ (v ++ a.form.closing)) ++ rest) [] [] :=
    eats_assigned fun c hc => by
      rw [List.append_assoc] at hc
      exact isBlank_of_head?_opening hc
  have hall := hsign.seq hform
  rw [List.append_assoc] at hall
  exact ⟨rest', hall⟩

/-! ## No matches of other spellings -/

section Other

variable {groups : List (Nat × Regex.Capture)}

/-- Blanks are not found where none stand. -/
theorem eq_of_blanks_append {bl after : List Char} (hbl : ∀ c ∈ bl, Text.isBlank c = true)
    (hcs : ∀ c, cs.head? = some c → Text.isBlank c = false) (h : cs = bl ++ after) : cs = after := by
  cases bl with
  | nil => exact h
  | cons c bl =>
    have hblank := hbl c List.mem_cons_self
    rw [hcs c (by rw [h]; rfl)] at hblank
    cases hblank

/-- The pattern for another name refuses: behind the shorter name stands a letter in one of them and
the sign in the other. -/
theorem refuses_assigned_of_ne {k l : ClassAttribute} (h : k ≠ l) :
    Refuses (Regex.run (Pattern.assigned k.name ++ r))
      (spot before (l.name.toList ++ '=' :: rest) groups) := by
  have hsign : Refuses (Regex.run (.seq (.seq (.text k.name) .blanks) (Pattern.char '=')))
      (spot before (l.name.toList ++ '=' :: rest) groups) := by
    refine Regex.refuses_of_yields ((Regex.yields_text.seq yields_blanks).seq (yields_char '=')) ?_
    rintro u ⟨w, ⟨x, hname, bl, hbl, hblanks⟩, hsign⟩
    rw [hblanks, hsign] at hname
    -- `class` is the beginning of both names
    have hbehind := congrArg (List.drop 5) hname
    cases k <;> cases l
    · exact h rfl
    · have hletter := eq_of_blanks_append hbl (fun c hc => by cases hc; decide) hbehind
      exact absurd (List.cons.inj hletter).1 (by decide)
    · change '=' :: _ = 'N' :: _ at hbehind
      exact absurd (List.cons.inj hbehind).1 (by decide)
    · exact h rfl
  exact (hsign.seq).seq

/-- A value begins with its sign, in braces behind blanks. -/
theorem exists_of_run_form {f : ValueForm} {s t : Cursor} {k : Cursor → Option Cursor}
    (h : Regex.run f.pattern s k = some t) : ∃ bl tail, (∀ c ∈ bl, Text.isBlank c = true) ∧
      s.after = if f.isBraced then '\x7b' :: (bl ++ f.quote :: tail) else f.quote :: tail := by
  rw [ValueForm.pattern] at h
  cases hbraced : f.isBraced with
  | false =>
    rw [hbraced, if_neg (by decide)] at h
    have hquoted : Regex.run (Pattern.char f.quote) s (fun u => Regex.run
        (.seq (.group 1 (.allBut f.quote)) (Pattern.char f.quote)) u k) = some t := h
    obtain ⟨u, hu, -⟩ := yields_char f.quote s _ t hquoted
    exact ⟨[], u.after, by simp, hu⟩
  | true =>
    rw [hbraced, if_pos rfl] at h
    have hopened : Regex.run (.seq (.seq (Pattern.char '\x7b') .blanks) (Pattern.char f.quote)) s
        (fun u => Regex.run (.seq (.seq (.group 1 (.allBut f.quote)) (Pattern.char f.quote))
          (.seq .blanks (Pattern.char '\x7d'))) u k) = some t := h
    obtain ⟨u, ⟨x, ⟨w, hopen, bl, hbl, hblanks⟩, hquote⟩, -⟩ :=
      (((yields_char '\x7b').seq yields_blanks).seq (yields_char f.quote)) s _ t hopened
    exact ⟨bl, u.after, hbl, by rw [hopen, hblanks, hquote]; rfl⟩

theorem refuses_form_of_ne {f g : ValueForm} (h : f ≠ g) {s : Cursor}
    (hs : s.after = g.opening ++ rest) : Refuses (Regex.run f.pattern) s := by
  intro k
  cases hrun : Regex.run f.pattern s k with
  | none => rfl
  | some t =>
    have hbrace : ∀ f : ValueForm, f.quote ≠ '\x7b' := by
      intro f
      cases f <;> decide
    obtain ⟨bl, tail, hbl, hafter⟩ := exists_of_run_form hrun
    rw [hs, ValueForm.opening] at hafter
    -- the first sign tells values in braces from those without, and the quote tells the others apart
    cases hf : f.isBraced <;> cases hg : g.isBraced <;> rw [hf, hg] at hafter
    · exact absurd (ValueForm.eq_of_quote_eq (hf.trans hg.symm) (List.cons.inj hafter).1.symm) h
    · exact absurd (List.cons.inj hafter).1.symm (hbrace f)
    · exact absurd (List.cons.inj hafter).1 (hbrace g)
    · have hinside : g.quote :: rest = bl ++ f.quote :: tail := (List.cons.inj hafter).2
      have hquote := eq_of_blanks_append hbl (fun c hc => by cases hc; exact isBlank_quote g) hinside
      exact absurd (ValueForm.eq_of_quote_eq (hf.trans hg.symm) (List.cons.inj hquote).1.symm) h

/-- Of an attribute, no pattern for another spelling matches a beginning. -/
theorem refuses_pattern_of_ne (h : a ≠ b) :
    Refuses (Regex.run a.pattern) (spot before (b.text v ++ rest) groups) := by
  have htext : b.text v ++ rest =
      b.key.name.toList ++ '=' :: (b.form.opening ++ (v ++ b.form.closing ++ rest)) := by
    simp [text]
  rw [htext]
  by_cases hkey : a.key = b.key
  · have hform : a.form ≠ b.form := by
      intro hform
      cases a
      cases b
      exact h (by rw [mk.injEq]; exact ⟨hkey, hform⟩)
    refine Regex.refuses_seq_of_yields
      (((Regex.yields_text.seq yields_blanks).seq (yields_char '=')).seq yields_blanks) ?_
    rintro u ⟨w, ⟨x, ⟨y, hname, bl, hbl, hblanks⟩, hsign⟩, bl', hbl', hblanks'⟩
    rw [hblanks, hsign, hkey] at hname
    have hbehind := eq_of_blanks_append hbl (fun c hc => by cases hc; rfl)
      (List.append_cancel_left hname)
    have hvalue := eq_of_blanks_append hbl' (fun c hc => isBlank_of_head?_opening hc)
      ((List.cons.inj hbehind).2.trans hblanks')
    exact refuses_form_of_ne hform hvalue.symm
  · exact refuses_assigned_of_ne hkey

end Other

/-! ## Replacing a spelling -/

/-- The characters of a class value: those of tokens, and the blanks between them. -/
def IsValue (v : List Char) : Prop := ∀ c ∈ v, isTokenChar c = true ∨ c = ' '

theorem IsValue.not_mem (h : IsValue v) {c : Char} (hc : isTokenChar c = false) (hblank : c ≠ ' ') :
    c ∉ v := by
  intro hmem
  rcases h c hmem with htoken | heq
  · rw [htoken] at hc
    cases hc
  · exact hblank heq

/-- The signs that end a value or a tag. -/
def outerSigns : List Char := ['"', '\'', '\x60', '<', '>']

/-- A text that stays inside of the value of an attribute, whatever its form. -/
def IsInner (v : List Char) : Prop := ∀ c ∈ outerSigns, c ∉ v

theorem all_eq_true_iff_isInner : (v.all fun c => !outerSigns.contains c) = true ↔ IsInner v := by
  simp only [IsInner, List.all_eq_true, Bool.not_eq_true', List.contains_eq_mem,
    decide_eq_false_iff_not]
  exact ⟨fun h c hc hmem => h c hmem hc, fun h c hmem hc => h c hc hmem⟩

instance (v : List Char) : Decidable (IsInner v) := decidable_of_iff _ all_eq_true_iff_isInner

theorem IsValue.isInner (h : IsValue v) : IsInner v := by
  intro c hc hmem
  rcases h c hmem with htoken | rfl
  · simp only [outerSigns, List.mem_cons, List.not_mem_nil, or_false] at hc
    rcases hc with rfl | rfl | rfl | rfl | rfl <;> cases htoken
  · revert hc
    decide

theorem IsValue.sign_not_mem (h : IsValue v) : '=' ∉ v := h.not_mem (by decide) (by decide)

theorem IsInner.quote_not_mem (h : IsInner v) (f : ValueForm) : f.quote ∉ v := by
  cases f <;> exact h _ (by decide)

theorem exists_name (k : ClassAttribute) :
    ∃ name, k.name.toList = 'c' :: name ∧ 'c' ∉ name ++ ['='] := by
  cases k with
  | plain => exact ⟨['l', 'a', 's', 's'], rfl, by decide⟩
  | camel => exact ⟨['l', 'a', 's', 's', 'N', 'a', 'm', 'e'], rfl, by decide⟩

theorem beginsWith_assigned {k : ClassAttribute} : BeginsWith 'c' (Pattern.assigned k.name ++ r) := by
  obtain ⟨name, hname, -⟩ := exists_name k
  exact ((((beginsWith_text hname).seq).seq).seq).seq

theorem demand_assigned {name : String} : 0 < (Pattern.assigned name ++ r).demand '=' := by
  have hsign : 0 < (Pattern.char '=').demand '=' := by decide
  have hname : 0 < (Regex.seq (.seq (.text name) .blanks) (Pattern.char '=')).demand '=' :=
    Nat.lt_of_lt_of_le hsign (Nat.le_add_left _ _)
  exact Nat.lt_of_lt_of_le hname (Nat.le_trans (Nat.le_add_right _ _) (Nat.le_add_right _ _))

/-- An element whose attribute the pattern refuses stays as it is. -/
theorem replaceAll_div_of_run {k : ClassAttribute} {f : Regex.Match → List Char} (hv : '=' ∉ v)
    (h : ∀ before rest, Regex.run (Pattern.assigned k.name ++ r) (spot before (a.text v ++ rest) [])
      some = none) :
    (Pattern.assigned k.name ++ r).replaceAll f (a.div v) = a.div v := by
  obtain ⟨name, hname, hc⟩ := exists_name a.key
  have htext : a.text v = 'c' :: ((name ++ ['=']) ++ (a.form.opening ++ (v ++ a.form.closing))) := by
    rw [text, hname]
    simp
  have hvalue : '=' ∉ a.form.opening ++ (v ++ a.form.closing) := by
    have hsign : ∀ f : ValueForm, '=' ∉ f.opening ∧ '=' ∉ f.closing := by
      intro f
      cases f <;> decide
    simp [hsign, hv]
  have hbehind : Silent (Pattern.assigned k.name ++ r) ('c' :: "<div ".toList.reverse)
      ((name ++ ['=']) ++ (a.form.opening ++ (v ++ a.form.closing))) ("></div>".toList) := by
    -- up to the sign no name begins, and from there on there is no other sign
    refine Silent.append (beginsWith_assigned.silent hc) (Regex.silent_of_demand (d := '=') ?_)
    rw [List.count_eq_zero.mpr]
    · exact demand_assigned
    · rw [List.mem_append, not_or]
      exact ⟨hvalue, by decide⟩
  have hattribute : Silent (Pattern.assigned k.name ++ r) "<div ".toList.reverse (a.text v)
      "></div>".toList := by
    have hfirst := h "<div ".toList.reverse "></div>".toList
    rw [htext] at hfirst ⊢
    exact .cons hfirst hbehind
  have hclose : Silent (Pattern.assigned k.name ++ r) ((a.text v).reverse ++ "<div ".toList.reverse)
      "></div>".toList [] :=
    beginsWith_assigned.silent (by decide)
  refine Regex.replaceAll_eq_self (Silent.append (beginsWith_assigned.silent (by decide)) ?_)
    beginsWith_assigned.run_nil
  rw [List.append_nil]
  exact Silent.append (by rwa [List.append_nil]) hclose

theorem toClassAttribute_eq {m : Regex.Match}
    (h : m.stop.groups.lookup 1 = some (Regex.Capture.of v rest)) :
    toClassAttribute m = "class=".toList ++ inQuotes v :=
  congrArg (fun g => "class=".toList ++ inQuotes g) (Regex.Match.group_eq h)

theorem text_canonical : canonical.text v = "class=".toList ++ inQuotes v := rfl

/-- The pattern for a spelling makes attributes in it canonical. -/
theorem replaceAll_pattern_self (a : ClassSpelling) (hv : a.form.quote ∉ v) :
    a.pattern.replaceAll toClassAttribute (a.div v) = canonical.div v := by
  obtain ⟨rest', hmatch⟩ := exists_eats_pattern hv "<div ".toList.reverse "></div>".toList
  refine (beginsWith_assigned.replaceAll_once (by decide) (by decide) (by simp [text]) hmatch).trans ?_
  rw [toClassAttribute_eq (List.lookup_cons_self ..), ← text_canonical]
  rfl

/-- Attributes in other spellings are left alone. -/
theorem replaceAll_pattern (a b : ClassSpelling) (hv : IsInner v) (hsign : '=' ∉ v) :
    a.pattern.replaceAll toClassAttribute (b.div v) = (respell a b).div v := by
  by_cases h : b = a
  · subst h
    rw [respell, if_pos rfl]
    exact replaceAll_pattern_self b (hv.quote_not_mem b.form)
  · rw [respell, if_neg h]
    exact replaceAll_div_of_run hsign fun _ _ => refuses_pattern_of_ne (Ne.symm h) some

end ClassSpelling

end BlockMarkup.Markup
