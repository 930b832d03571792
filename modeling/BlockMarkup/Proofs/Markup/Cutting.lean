import BlockMarkup.Proofs.Regex.Preferred
import BlockMarkup.Markup.Node
import BlockMarkup.Markup.Render

/-! # Cutting markup piece by piece

Markup is cut into tokens from the left to the right, so what is found in one piece of it does not
depend on the pieces before (`Scans`, `Scans.append`). This module says what is found in the pieces
that trees are written with: escaped text (`exists_scans_escapeText`), comments (`scans_comment`),
instructions (`scans_instruction`), and end tags (`scans_endTag`).
-/

namespace BlockMarkup.Markup

open BlockMarkup.Regex (CharSet Cursor Eats)
open BlockMarkup.Regex.Cursor (spot)

namespace Token

/-- Cutting goes over the characters in front of `rest` and finds the tokens, whatever stands before
them. -/
def Scans (cs : List Char) (ts : List Token) (rest : List Char) : Prop :=
  ∀ before groups, ∃ n groups', n ≤ cs.length ∧ ∀ fuel out,
    scanFrom (n + fuel) false none out (spot before (cs ++ rest) groups) =
      scanFrom fuel false none (ts.reverse ++ out) (spot (cs.reverse ++ before) rest groups')

variable {cs cs' rest : List Char} {ts ts' : List Token}

theorem scans_nil : Scans [] [] rest := fun _ groups => ⟨0, groups, Nat.le_refl _, fun fuel _ => by
  rw [Nat.zero_add]
  rfl⟩

theorem Scans.append (h : Scans cs ts (cs' ++ rest)) (h' : Scans cs' ts' rest) :
    Scans (cs ++ cs') (ts ++ ts') rest := by
  intro before groups
  obtain ⟨n, groups', hn, hscan⟩ := h before groups
  obtain ⟨m, groups'', hm, hscan'⟩ := h' (cs.reverse ++ before) groups'
  refine ⟨n + m, groups'', by simp only [List.length_append]; omega, fun fuel out => ?_⟩
  rw [List.append_assoc, Nat.add_assoc, hscan, hscan']
  simp only [List.reverse_append, List.append_assoc]

/-- What is cut to the end are the tokens of the markup. -/
theorem read_of_scans (h : Scans cs ts []) : Token.read cs = .ok ts := by
  obtain ⟨n, groups', hn, hscan⟩ := h [] []
  have hfuel : 2 * cs.length + 4 = n + (2 * cs.length + 3 - n + 1) := by omega
  have hread : Token.read cs =
      scanFrom (2 * cs.length + 4) false none [] (spot [] (cs ++ []) []) := by
    rw [List.append_nil]
    rfl
  rw [hread, hfuel, hscan]
  simp [scanFrom, spot]

section Step

variable {fuel : Nat} {final : Bool} {out : List Token} {s t : Cursor} {more : List Char}

theorem scanFrom_tag (hafter : s.after = '<' :: more) (hread : readTag s = .ok (some (ts, t))) :
    scanFrom (fuel + 1) final none out s =
      scanFrom fuel final (rawAfter ts) (ts.reverse ++ out) t := by
  conv_lhs => unfold scanFrom
  simp only [hafter, hread]

theorem scanFrom_reference (hafter : s.after = '&' :: more)
    (hread : readReference s = some (ts, t)) :
    scanFrom (fuel + 1) final none out s = scanFrom fuel final none (ts.reverse ++ out) t := by
  conv_lhs => unfold scanFrom
  simp only [hafter, hread]

theorem scanFrom_text {c : Char} (hafter : s.after = c :: more) (hangle : c ≠ '<') (hmark : c ≠ '&')
    (hread : readText s = (ts, t)) :
    scanFrom (fuel + 1) final none out s = scanFrom fuel final none (ts.reverse ++ out) t := by
  conv_lhs => unfold scanFrom
  simp only [hafter, hread]
  split
  · simp_all
  · simp_all
  · simp_all
  · rfl

theorem scanFrom_raw {name : String} {raw : Option String}
    (hread : readRaw name s = some (ts, t, raw)) :
    scanFrom (fuel + 1) final (some name) out s =
      scanFrom fuel final raw (ts.reverse ++ out) t := by
  conv_lhs => unfold scanFrom
  rw [hread]

end Step

/-- A tag is cut in one step. -/
theorem scans_tag (hraw : rawAfter ts = none)
    (h : ∀ before groups, ∃ groups', readTag (spot before ('<' :: (cs ++ rest)) groups) =
      .ok (some (ts, spot (cs.reverse ++ '<' :: before) rest groups'))) :
    Scans ('<' :: cs) ts rest := by
  intro before groups
  obtain ⟨groups', hread⟩ := h before groups
  refine ⟨1, groups', Nat.le_add_left _ _, fun fuel out => ?_⟩
  rw [Nat.add_comm, List.reverse_cons, List.append_assoc]
  exact (scanFrom_tag rfl hread).trans (by rw [hraw]; rfl)

/-- A reference is cut in one step. -/
theorem scans_reference
    (h : ∀ before groups, readReference (spot before ('&' :: (cs ++ rest)) groups) =
      some (ts, spot (cs.reverse ++ '&' :: before) rest groups)) : Scans ('&' :: cs) ts rest := by
  intro before groups
  refine ⟨1, groups, Nat.le_add_left _ _, fun fuel out => ?_⟩
  rw [Nat.add_comm, List.reverse_cons, List.append_assoc]
  exact scanFrom_reference rfl (h before groups)

theorem takeWhile_of_all {p : Char → Bool} (h : ∀ c ∈ cs, p c = true)
    (hrest : ∀ c, rest.head? = some c → p c = false) : (cs ++ rest).takeWhile p = cs := by
  induction cs with
  | nil =>
    cases rest with
    | nil => rfl
    | cons c rest => rw [List.nil_append, List.takeWhile_cons_of_neg (by rw [hrest c rfl]; simp)]
  | cons c cs ih =>
    rw [List.forall_mem_cons] at h
    rw [List.cons_append, List.takeWhile_cons_of_pos h.1, ih h.2]

/-- Text is cut up to the next mark. -/
theorem scans_text (hcs : cs ≠ []) (h : ∀ c ∈ cs, c ≠ '<' ∧ c ≠ '&')
    (hrest : ∀ c, rest.head? = some c → c = '<' ∨ c = '&') : Scans cs [.text cs] rest := by
  intro before groups
  refine ⟨1, groups, List.length_pos_iff.mpr hcs, fun fuel out => ?_⟩
  have hread : readText (spot before (cs ++ rest) groups) =
      ([.text cs], spot (cs.reverse ++ before) rest groups) := by
    have hrun : (cs ++ rest).takeWhile (fun c => c != '<' && c != '&') = cs := by
      refine takeWhile_of_all (fun c hc => ?_) fun c hc => ?_
      · simpa using h c hc
      · rcases hrest c hc with rfl | rfl <;> rfl
    have hadvance := Cursor.advance_spot cs before rest groups
    rw [readText]
    dsimp only [spot] at hadvance ⊢
    rw [hrun, hadvance]
  cases cs with
  | nil => exact absurd rfl hcs
  | cons c tail =>
    obtain ⟨hangle, hmark⟩ := h c List.mem_cons_self
    rw [Nat.add_comm]
    exact scanFrom_text rfl hangle hmark hread

/-! ## Escaped text -/

theorem readReference_of_isAlpha {s : Cursor} {m c : Char} {more : List Char}
    (hafter : s.after = m :: c :: more) (hc : c.isAlpha = true) :
    readReference s = readNamedReference s := by
  have hsharp : c ≠ '#' := by
    rintro rfl
    cases hc
  unfold readReference
  simp only [hafter]
  split
  · simp_all
  · simp_all

theorem isReferenceChar_of_isAlpha {c : Char} (hc : c.isAlpha = true) :
    isReferenceChar c = true := by
  rw [isReferenceChar, Char.isAlphanum, hc]
  rfl

/-- A name between the marks of a reference. -/
theorem scans_named (c : Char) (name : List Char) (hname : (c :: name).all Char.isAlpha = true) :
    Scans ('&' :: (c :: name ++ [';'])) [.text (namedText (c :: name))] rest := by
  rw [List.all_eq_true] at hname
  refine scans_reference fun before groups => ?_
  have hrun : (c :: name ++ (';' :: rest)).takeWhile isReferenceChar = c :: name :=
    takeWhile_of_all (fun d hd => isReferenceChar_of_isAlpha (hname d hd)) fun d hd => by
      cases hd
      rfl
  have hlength : (c :: name).length < (c :: name ++ (';' :: rest)).length := by
    simp only [List.length_append, List.length_cons]
    omega
  have hbody : (spot before ('&' :: (c :: name ++ (';' :: rest))) groups).advance 1 =
      spot ('&' :: before) (c :: name ++ (';' :: rest)) groups := rfl
  have hafter : (spot ('&' :: before) (c :: name ++ (';' :: rest)) groups).after =
      c :: name ++ (';' :: rest) := rfl
  rw [List.append_assoc, readReference_of_isAlpha rfl (hname c List.mem_cons_self)]
  simp only [readNamedReference, List.singleton_append, hbody, hafter, hrun, if_pos hlength,
    Cursor.advance_spot]
  simp [skipSemicolon, spot, Cursor.advance]

/-- The tokens are text, which together is the given one. -/
def Texts (ts : List Token) (s : List Char) : Prop :=
  ∃ pieces : List (List Char), ts = pieces.map .text ∧ pieces.flatten = s

theorem scans_escapeChar {c : Char} (hc : c = '&' ∨ c = '<' ∨ c = '>') :
    Scans (escapeChar c) [.text [c]] rest := by
  rcases hc with rfl | rfl | rfl
  · exact scans_named 'a' ['m', 'p'] (by decide)
  · exact scans_named 'l' ['t'] (by decide)
  · exact scans_named 'g' ['t'] (by decide)

theorem texts_nil : Texts [] [] := ⟨[], rfl, rfl⟩

/-- The characters of text that have to be escaped. -/
def isMark (c : Char) : Bool := c == '&' || c == '<' || c == '>'

theorem escapeChar_of_not_isMark {c : Char} (h : isMark c = false) : escapeChar c = [c] := by
  simp only [isMark, Bool.or_eq_false_iff, beq_eq_false_iff_ne] at h
  rw [escapeChar, if_neg h.1.1, if_neg h.1.2, if_neg h.2]

theorem head?_escapeChar {c : Char} (h : isMark c = true) : (escapeChar c).head? = some '&' := by
  simp only [isMark, Bool.or_eq_true, beq_iff_eq] at h
  rcases h with (rfl | rfl) | rfl <;> rfl

theorem Texts.append {s s' : List Char} (h : Texts ts s) (h' : Texts ts' s') :
    Texts (ts ++ ts') (s ++ s') := by
  obtain ⟨pieces, rfl, rfl⟩ := h
  obtain ⟨pieces', rfl, rfl⟩ := h'
  exact ⟨pieces ++ pieces', List.map_append.symm, List.flatten_append⟩

/-- A run of characters without marks is read as one text, if it is not empty. -/
theorem exists_scans_run {run : List Char} (hrun : ∀ c ∈ run, isMark c = false)
    (hrest : ∀ c, rest.head? = some c → c = '<' ∨ c = '&') :
    ∃ ts, Texts ts run ∧ Scans run ts rest := by
  cases run with
  | nil => exact ⟨[], texts_nil, scans_nil⟩
  | cons c run =>
    refine ⟨[.text (c :: run)], ⟨[c :: run], rfl, by simp⟩, scans_text (by simp) ?_ hrest⟩
    intro d hd
    have hmark := hrun d hd
    simp only [isMark, Bool.or_eq_false_iff, beq_eq_false_iff_ne] at hmark
    exact ⟨hmark.1.2, hmark.1.1⟩

/-- Escaped text is read as the text, `run` being the characters since the last mark. -/
theorem exists_scans_escapeText (hrest : ∀ c, rest.head? = some c → c = '<') (run : List Char)
    (hrun : ∀ c ∈ run, isMark c = false) (s : List Char) :
    ∃ ts, Texts ts (run ++ s) ∧ Scans (run ++ escapeText s) ts rest := by
  induction s generalizing run with
  | nil =>
    rw [List.append_nil, show escapeText [] = [] from rfl, List.append_nil]
    exact exists_scans_run hrun fun c hc => Or.inl (hrest c hc)
  | cons c s ih =>
    rw [escapeText, List.flatMap_cons, ← escapeText]
    cases hc : isMark c with
    | false =>
      obtain ⟨ts, htexts, hscans⟩ := ih (run ++ [c]) (by
        intro d hd
        rcases List.mem_append.mp hd with hd | hd
        · exact hrun d hd
        · exact List.mem_singleton.mp hd ▸ hc)
      rw [List.append_assoc] at htexts hscans
      rw [escapeChar_of_not_isMark hc]
      exact ⟨ts, htexts, hscans⟩
    | true =>
      have hmark : c = '&' ∨ c = '<' ∨ c = '>' := by
        simpa [isMark, or_assoc] using hc
      have hnext : ∀ d, (escapeChar c ++ (escapeText s ++ rest)).head? = some d →
          d = '<' ∨ d = '&' := by
        intro d hd
        rw [List.head?_append, head?_escapeChar hc] at hd
        exact Or.inr (Option.some.inj hd).symm
      obtain ⟨ts, htexts, hscans⟩ := exists_scans_run hrun hnext
      obtain ⟨ts', htexts', hscans'⟩ := ih [] (by simp)
      have hchar : Texts [.text [c]] [c] := ⟨[[c]], rfl, rfl⟩
      refine ⟨ts ++ ([.text [c]] ++ ts'), htexts.append (hchar.append htexts'), ?_⟩
      exact Scans.append (by rw [List.append_assoc]; exact hscans)
        (Scans.append (scans_escapeChar hmark) hscans')

/-! ## Searching -/

theorem search?_eq {r : Regex} {before : List Char} {groups' : List (Nat × Regex.Capture)}
    (hsilent : Regex.Silent r before cs (cs' ++ rest))
    (hmatch : Eats r cs' (cs.reverse ++ before) rest [] groups')
    (groups : List (Nat × Regex.Capture)) :
    search? r (spot before (cs ++ (cs' ++ rest)) groups) =
      some ⟨spot (cs.reverse ++ before) (cs' ++ rest) [],
        spot (cs'.reverse ++ (cs.reverse ++ before)) rest groups'⟩ :=
  Regex.findFrom_eq hsilent (hmatch some _ rfl)

theorem past?_eq {c : Char} (h : c ∉ cs) (before rest : List Char)
    (groups : List (Nat × Regex.Capture)) :
    past? c (spot before (cs ++ c :: rest) groups) =
      some (spot ((cs ++ [c]).reverse ++ before) rest groups) := by
  have hindex : (cs ++ c :: rest).findIdx? (· == c) = some cs.length := by
    rw [List.findIdx?_append, List.findIdx?_eq_none_iff.mpr fun d hd => by
      rw [beq_eq_false_iff_ne]
      rintro rfl
      exact h hd]
    simp [List.findIdx?_cons]
  have hadvance := Cursor.advance_spot (cs ++ [c]) before rest groups
  rw [List.length_append, List.append_assoc] at hadvance
  rw [past?]
  dsimp only [spot] at hadvance ⊢
  rw [hindex]
  exact congrArg some hadvance

/-! ## Comments and instructions -/

/-- A comment would end here. -/
def endsComment : List Char → Bool
  | '-' :: '-' :: cs => (cs.dropWhile Text.isBlank).head? == some '>'
  | _ => false

theorem yields_char (c : Char) : Regex.Yields (Regex.run (Pattern.char c)) fun s u =>
    s.after = c :: u.after :=
  Regex.yields_single c

theorem yields_blanks : Regex.Yields (Regex.run Regex.blanks) fun s u =>
    ∃ bl, (∀ c ∈ bl, Text.isBlank c = true) ∧ s.after = bl ++ u.after := by
  refine (Regex.yields_span _ _ _ _).weaken ?_
  rintro s u ⟨bl, hafter, hbl, -⟩
  exact ⟨bl, fun c hc => CharSet.contains_blank ▸ hbl c hc, hafter⟩

theorem head?_dropWhile_blanks {bl after : List Char} (hbl : ∀ c ∈ bl, Text.isBlank c = true)
    (hafter : ∀ c, after.head? = some c → Text.isBlank c = false) :
    ((bl ++ after).dropWhile Text.isBlank).head? = after.head? := by
  induction bl with
  | nil =>
    cases after with
    | nil => rfl
    | cons c after => rw [List.nil_append, List.dropWhile_cons_of_neg (by rw [hafter c rfl]; simp)]
  | cons c bl ih =>
    rw [List.forall_mem_cons] at hbl
    rw [List.cons_append, List.dropWhile_cons_of_pos hbl.1, ih hbl.2]

theorem endsComment_of_run {s t : Cursor} {k : Cursor → Option Cursor}
    (h : Regex.run Pattern.commentEnd s k = some t) : endsComment s.after = true := by
  obtain ⟨u, ⟨v, ⟨w, hopen, bl, hbl, hblanks⟩, hclose⟩, _⟩ :=
    (((yields_char '-').seq (yields_char '-')).seq yields_blanks).seq (yields_char '>') s k t h
  obtain ⟨x, hfirst, hsecond⟩ := hopen
  rw [hfirst, hsecond, hblanks, hclose, endsComment, head?_dropWhile_blanks hbl]
  · rfl
  · intro c hc
    cases hc
    rfl

theorem head?_dropWhile_append {p : Char → Bool} {t rest : List Char} :
    ((t ++ rest).dropWhile p).head? =
      (t.dropWhile p).head?.or (if t.all p then (rest.dropWhile p).head? else none) := by
  induction t with
  | nil => simp
  | cons c t ih =>
    cases hc : p c with
    | false => simp [hc]
    | true => simp [hc, ih]

/-- No comment ends before the mark at its end. -/
theorem endsComment_append {t : List Char} (hne : t ≠ []) (h : endsComment t = false) :
    endsComment (t ++ '-' :: '-' :: '>' :: rest) = false := by
  match t, hne with
  | [c], _ =>
    rw [endsComment.eq_def]
    split
    · rename_i hcs
      cases hcs
      rfl
    · rfl
  | c :: d :: t, _ =>
    rw [endsComment.eq_def] at h ⊢
    split at h
    · rename_i hcs
      cases hcs
      simp only [List.cons_append]
      rw [head?_dropWhile_append]
      have hdash : (('-' :: '-' :: '>' :: rest).dropWhile Text.isBlank).head? = some '-' := rfl
      rw [hdash]
      cases hhead : (t.dropWhile Text.isBlank).head? with
      | none =>
        rw [Option.none_or]
        split <;> rfl
      | some e =>
        rw [hhead] at h
        exact h
    · rename_i hcs
      split
      · rename_i hcs'
        simp only [List.cons_append, List.cons.injEq] at hcs'
        obtain ⟨rfl, rfl, _⟩ := hcs'
        exact absurd rfl (hcs t)
      · rfl

/-- A comment is cut in one step. -/
theorem scans_comment {s : List Char} (h : ∀ t, t <:+ s → endsComment t = false) :
    Scans ('<' :: ("!--".toList ++ s ++ "-->".toList)) [.comment s] rest := by
  refine scans_tag rfl fun before groups => ?_
  have hsilent : Regex.Silent Pattern.commentEnd ("<!--".toList.reverse ++ before) s
      ("-->".toList ++ rest) := by
    intro p c q hs
    cases hrun : Regex.run Pattern.commentEnd
        (spot (p.reverse ++ ("<!--".toList.reverse ++ before))
          (c :: (q ++ ("-->".toList ++ rest))) [])
        some with
    | none => rfl
    | some t =>
      have hends := endsComment_of_run hrun
      have hnone : endsComment (c :: q ++ '-' :: '-' :: '>' :: rest) = false :=
        endsComment_append (by simp) (h _ ⟨p, hs.symm⟩)
      exact absurd (hends.symm.trans hnone) (by simp)
  have hmatch : Eats Pattern.commentEnd (("--".toList ++ []) ++ ['>'])
      (s.reverse ++ ("<!--".toList.reverse ++ before)) rest [] [] :=
    (Regex.eats_text.seq (Regex.eats_many_nil fun c hc => by cases hc; rfl)).seq
      (Regex.eats_one (by simp [CharSet.contains_single]))
  have hstart : (spot before ('<' :: ("!--".toList ++ s ++ "-->".toList ++ rest)) groups).advance 4 =
      spot ("<!--".toList.reverse ++ before) (s ++ ("-->".toList ++ rest)) groups := by
    simp only [List.append_assoc]
    rfl
  have hread : readTag (spot before ('<' :: ("!--".toList ++ s ++ "-->".toList ++ rest)) groups) =
      .ok (readComment (spot before ('<' :: ("!--".toList ++ s ++ "-->".toList ++ rest)) groups)) :=
    rfl
  refine ⟨[], ?_⟩
  rw [hread, readComment, hstart, search?_eq hsilent hmatch]
  dsimp only [Option.bind_eq_bind, Option.bind_some, Option.pure_def]
  rw [Cursor.textTo_spot]
  simp only [List.reverse_append, List.append_assoc]
  rfl

/-- An instruction is cut in one step. -/
theorem scans_instruction {s : List Char} (h : '>' ∉ s) :
    Scans ('<' :: ('?' :: s ++ ['>'])) [.instruction s] rest := by
  refine scans_tag rfl fun before groups => ⟨groups, ?_⟩
  have hstart : (spot before ('<' :: ('?' :: s ++ ['>'] ++ rest)) groups).advance 2 =
      spot ('?' :: '<' :: before) (s ++ '>' :: rest) groups := by
    rw [List.append_assoc]
    rfl
  have hread : readTag (spot before ('<' :: ('?' :: s ++ ['>'] ++ rest)) groups) =
      .ok (readToAngle 2 .instruction (spot before ('<' :: ('?' :: s ++ ['>'] ++ rest)) groups)) :=
    rfl
  have hcontent := Cursor.textTo_spot (s ++ ['>']) ('?' :: '<' :: before) rest groups groups
  rw [List.append_assoc] at hcontent
  rw [hread, readToAngle, hstart, past?_eq h]
  dsimp only [Option.bind_eq_bind, Option.bind_some, Option.pure_def]
  rw [List.singleton_append] at hcontent
  rw [hcontent, List.dropLast_concat]
  simp only [List.reverse_append, List.reverse_cons, List.append_assoc]
  rfl

/-! ## Names -/

/-- The characters of the name of a tag behind the first one. -/
def nameSet : CharSet :=
  (Pattern.letterSet.or (.between '0' '9')).or (.ofList ['-', '.', ':', '_'])

section Names

variable {c : Char}

theorem toNat_of_letterSet (h : Pattern.letterSet.contains c = true) :
    (65 ≤ c.toNat ∧ c.toNat ≤ 90) ∨ (97 ≤ c.toNat ∧ c.toNat ≤ 122) := by
  simp [Pattern.letterSet, CharSet.or, CharSet.between, CharSet.contains,
    Regex.CaseRule.variants, Regex.SetItem.covers] at h
  omega

theorem isAlpha_of_letterSet (h : Pattern.letterSet.contains c = true) : c.isAlpha = true := by
  show (decide (65 ≤ c.val ∧ c.val ≤ 90) || (decide (97 ≤ c.val) && decide (c.val ≤ 122))) = true
  simp only [Bool.or_eq_true, Bool.and_eq_true, decide_eq_true_eq, UInt32.le_iff_toNat_le]
  exact toNat_of_letterSet h

theorem toNat_of_nameSet (h : nameSet.contains c = true) :
    45 ≤ c.toNat ∧ c.toNat ≤ 122 ∧ c.toNat ≠ 47 ∧ c.toNat ≠ 61 ∧ c.toNat ≠ 62 := by
  simp [nameSet, Pattern.letterSet, CharSet.or, CharSet.between, CharSet.ofList,
    CharSet.contains, Regex.CaseRule.variants, Regex.SetItem.covers] at h
  omega

theorem tagNameSet_of_nameSet (h : nameSet.contains c = true) :
    Pattern.tagNameSet.contains c = true := by
  have hc := toNat_of_nameSet h
  simp [Pattern.tagNameSet, CharSet.not, CharSet.ofList, CharSet.contains,
    Regex.CaseRule.variants, Regex.SetItem.covers]
  omega

theorem isBlank_of_nameSet (h : nameSet.contains c = true) : Text.isBlank c = false := by
  have hc := toNat_of_nameSet h
  simp [Text.isBlank]
  omega

/-- A name that tags can be written with: the parser reads it back. -/
structure Nameable (name : List Char) : Prop where
  first : ∃ c cs, name = c :: cs ∧ Pattern.letterSet.contains c = true
  rest : ∀ c ∈ name, nameSet.contains c = true
  lower : Text.lower (String.ofList name) = String.ofList name

theorem nameable_iff {name : List Char} : Nameable name ↔
    name.head?.any Pattern.letterSet.contains = true ∧ name.all nameSet.contains = true ∧
      Text.lower (String.ofList name) = String.ofList name := by
  rw [List.all_eq_true]
  constructor
  · rintro ⟨⟨c, cs, rfl, hc⟩, hrest, hlower⟩
    exact ⟨hc, hrest, hlower⟩
  · rintro ⟨hfirst, hrest, hlower⟩
    cases name with
    | nil => cases hfirst
    | cons c cs => exact ⟨⟨c, cs, rfl, hfirst⟩, hrest, hlower⟩

instance (name : List Char) : Decidable (Nameable name) := decidable_of_iff _ nameable_iff.symm

end Names

/-! ## End tags -/

theorem angle_not_mem {name : List Char} (h : Nameable name) : '>' ∉ name := by
  intro hmem
  exact absurd (h.rest _ hmem) (by decide)

theorem eats_blanks_nil {before : List Char} {groups : List (Nat × Regex.Capture)}
    (h : ∀ c, rest.head? = some c → Text.isBlank c = false) :
    Eats Regex.blanks [] before rest groups groups :=
  Regex.eats_many_nil fun c hc => CharSet.contains_blank.trans (h c hc)

theorem eats_char {c : Char} {before : List Char} {groups : List (Nat × Regex.Capture)} :
    Eats (Pattern.char c) [c] before rest groups groups :=
  Regex.eats_one (by rw [CharSet.contains_single, beq_self_eq_true])

theorem eats_endTag {name : List Char} (h : Nameable name) (before rest : List Char) :
    Eats Pattern.endTag ('<' :: '/' :: (name ++ ['>'])) before rest []
      [(1, .of name ('>' :: rest))] := by
  obtain ⟨c, cs, rfl, hc⟩ := h.first
  have hcs : ∀ d ∈ cs, nameSet.contains d = true := fun d hd => h.rest d (List.mem_cons_of_mem _ hd)
  have hname : Eats (.one Pattern.letterSet ++ .many nameSet) ([c] ++ cs)
      (['<', '/'].reverse ++ before) (['>'] ++ rest) [] [] :=
    (Regex.eats_one hc).seq (Regex.eats_many hcs fun d hd => by cases hd; rfl)
  have hmark : Eats (.text "</") ['<', '/'] before
      (([c] ++ cs) ++ (['>'] ++ rest)) [] [] := Regex.eats_text
  have hblank : Eats Regex.blanks [] (['<', '/'].reverse ++ before)
      (([c] ++ cs) ++ (['>'] ++ rest)) [] [] := by
    refine eats_blanks_nil fun d hd => ?_
    cases hd
    exact isBlank_of_nameSet (h.rest c List.mem_cons_self)
  have hmatch : Eats Pattern.endTag ((((['<', '/'] ++ []) ++ ([c] ++ cs)) ++ []) ++ ['>']) before rest
      [] [(1, .of ([c] ++ cs) (['>'] ++ rest))] :=
    (((hmark.seq_nil hblank).seq hname.group).seq_nil
      (eats_blanks_nil fun d hd => by cases hd; rfl)).seq eats_char
  simpa only [List.append_nil, List.append_assoc, List.cons_append, List.nil_append] using hmatch

/-- An end tag is cut in one step. -/
theorem scans_endTag {name : List Char} (h : Nameable name) (rest : List Char) :
    Scans ('<' :: '/' :: (name ++ ['>'])) [.endTag (String.ofList name)] rest := by
  refine scans_tag rfl fun before groups => ⟨[(1, .of name ('>' :: rest))], ?_⟩
  have hangle : '>' ∉ '/' :: name := by
    rw [List.mem_cons]
    exact fun hmem => hmem.elim (by simp) (angle_not_mem h)
  have hmatched := (eats_endTag h before rest).matchAt groups
  have hstop := past?_eq hangle ('<' :: before) rest groups
  have hread : readTag (spot before ('<' :: '/' :: (name ++ '>' :: rest)) groups) =
      .ok (readEndTag (spot before ('<' :: '/' :: (name ++ '>' :: rest)) groups)) := rfl
  have hstart : (spot before ('<' :: '/' :: (name ++ '>' :: rest)) groups).advance 1 =
      spot ('<' :: before) ('/' :: (name ++ '>' :: rest)) groups := rfl
  simp only [List.append_assoc, List.cons_append, List.nil_append] at hmatched hstop ⊢
  rw [hread, readEndTag, hstart, hstop, hmatched]
  simp only [Option.bind_eq_bind, Option.bind_some, Option.pure_def]
  rw [Regex.Match.group_eq (List.lookup_cons_self ..), h.lower]
  simp

end Token

end BlockMarkup.Markup
