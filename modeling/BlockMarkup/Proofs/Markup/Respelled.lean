import BlockMarkup.Markup.ClassBinding
import BlockMarkup.Proofs.Markup.Written

/-! # Written class attributes

Written markup consists of pieces, attributes among them. Replacing the matches of a pattern renames
attributes if the pattern matches at these attributes only (`Piece.replaceAll_spell`). A mark says
where a pattern may match at all, and `Piece.marksOnly` checks that this is so at the attributes in
question and nowhere else. So the internal name is replaced, and class bindings in double quotes are
rewritten as they are meant (`rebind_spell`).
-/

namespace BlockMarkup.Markup

open Token (eats_char eats_blanks_nil)
open BlockMarkup.Regex (CharSet Cursor Eats Refuses Rewrites Silent Yields)
open BlockMarkup.Regex.Cursor (spot)

/-- A piece of written markup. -/
inductive Piece where
  | plain (cs : List Char)
  | named (name value : String)

namespace Piece

/-- The characters of a piece. -/
def text : Piece → List Char
  | .plain cs => cs
  | .named name value => attributeText (name, value)

/-- The characters of some pieces. -/
def spell (ps : List Piece) : List Char := ps.flatMap text

/-- The piece with another name for attributes of some names. -/
def rename (keys : List String) (target : String) : Piece → Piece
  | .plain cs => .plain cs
  | .named name value => .named (if keys.contains name then target else name) value

theorem spell_cons (p : Piece) (ps : List Piece) : spell (p :: ps) = p.text ++ spell ps := rfl

theorem text_rename {keys : List String} {name : String} (target value : String)
    (h : keys.contains name = true) :
    (rename keys target (.named name value)).text = attributeText (target, value) := by
  rw [rename, if_pos h, text]

theorem text_rename_other {keys : List String} {name : String} (target value : String)
    (h : keys.contains name = false) :
    (rename keys target (.named name value)).text = attributeText (name, value) := by
  rw [rename, h, if_neg Bool.false_ne_true, text]

/-! ## Marks -/

/-- Whether no mark stands in the characters; `before` and `rest` are those around them. -/
def markless (mark : List Char → List Char → Bool) (before : List Char) :
    List Char → List Char → Bool
  | [], _ => true
  | c :: cs, rest => !mark before (c :: (cs ++ rest)) && markless mark (c :: before) cs rest

/-- Whether a mark stands at the start of every attribute of the given names and nowhere else. -/
def marksOnly (mark : List Char → List Char → Bool) (keys : List String) (before : List Char) :
    List Piece → Bool
  | [] => true
  | .plain cs :: ps =>
    markless mark before cs (spell ps) && marksOnly mark keys (cs.reverse ++ before) ps
  | .named name value :: ps =>
    let cs := attributeText (name, value)
    (mark before (cs ++ spell ps) == keys.contains name) &&
      markless mark (cs.take 1 ++ before) cs.tail (spell ps) &&
      marksOnly mark keys (cs.reverse ++ before) ps

variable {mark : List Char → List Char → Bool} {keys : List String} {r : Regex}
  {before cs rest : List Char}

/-- The pattern matches at marks only. -/
def Marks (mark : List Char → List Char → Bool) (r : Regex) : Prop :=
  (∀ before, mark before [] = false) ∧ ∀ before after, mark before after = false →
    Regex.run r (spot before after []) some = none

theorem silent_of_markless (hr : Marks mark r) (h : markless mark before cs rest = true) :
    Silent r before cs rest := by
  induction cs generalizing before with
  | nil => exact Regex.silent_nil
  | cons c cs ih =>
    rw [markless, Bool.and_eq_true, Bool.not_eq_true'] at h
    exact .cons (hr.2 _ _ h.1) (ih h.2)

theorem exists_attributeText (name value : String) :
    ∃ c cs, attributeText (name, value) = c :: cs := by
  rw [attributeText]
  cases name.toList with
  | nil => exact ⟨_, _, rfl⟩
  | cons c cs => exact ⟨_, _, rfl⟩

/-- The pattern does not match at attributes of the given names. -/
def Passes (r : Regex) (keys : List String) (ok : String → Prop) : Prop :=
  ∀ name value before rest, name ∈ keys → ok value →
    Regex.run r (spot before (attributeText (name, value) ++ rest) []) some = none

/-- The pattern matches a beginning of the attributes of the given names, and `f` gives them
another name. -/
def Hits (mark : List Char → List Char → Bool) (r : Regex) (f : Regex.Match → List Char)
    (keys : List String) (target : String) (ok : String → Prop) : Prop :=
  ∀ name value before rest, name ∈ keys → ok value →
    mark before (attributeText (name, value) ++ rest) = true →
    ∃ cs cs' groups, attributeText (name, value) = cs ++ cs' ∧ cs ≠ [] ∧
      Regex.run r (spot before (cs ++ (cs' ++ rest)) []) some =
        some (spot (cs.reverse ++ before) (cs' ++ rest) groups) ∧
      f ⟨spot before (cs ++ (cs' ++ rest)) [], spot (cs.reverse ++ before) (cs' ++ rest) groups⟩ ++
        cs' = attributeText (target, value)

/-- The values of attributes of the given names. -/
def Valued (keys : List String) (ok : String → Prop) (ps : List Piece) : Prop :=
  ∀ name value, .named name value ∈ ps → name ∈ keys → ok value

variable {f : Regex.Match → List Char} {target : String} {ok : String → Prop} {ps : List Piece}

theorem Valued.tail {p : Piece} (h : Valued keys ok (p :: ps)) : Valued keys ok ps :=
  fun name value hmem => h name value (List.mem_cons_of_mem _ hmem)

theorem markless_drop {cs' : List Char} (h : markless mark before (cs ++ cs') rest = true) :
    markless mark (cs.reverse ++ before) cs' rest = true := by
  induction cs generalizing before with
  | nil => exact h
  | cons c cs ih =>
    rw [List.cons_append, markless, Bool.and_eq_true] at h
    rw [List.reverse_cons, List.append_assoc]
    exact ih h.2

section Attribute

variable {name value : String}

/-- If no mark stands behind the first character of an attribute, the pattern matches at its start or not
at all. -/
theorem silent_attributeText (hr : Marks mark r)
    (hfirst : Regex.run r (spot before (attributeText (name, value) ++ rest) []) some = none)
    (hmarkless : markless mark ((attributeText (name, value)).take 1 ++ before)
      (attributeText (name, value)).tail rest = true) :
    Silent r before (attributeText (name, value)) rest := by
  obtain ⟨c, cs, htext⟩ := exists_attributeText name value
  rw [htext] at hfirst hmarkless ⊢
  exact .cons hfirst (silent_of_markless hr hmarkless)

/-- Nor does it match behind what it has matched there. -/
theorem silent_behind_match {cs' : List Char} (hr : Marks mark r)
    (hsplit : attributeText (name, value) = cs ++ cs') (hne : cs ≠ [])
    (hmarkless : markless mark ((attributeText (name, value)).take 1 ++ before)
      (attributeText (name, value)).tail rest = true) :
    Silent r (cs.reverse ++ before) cs' rest := by
  obtain ⟨d, cs, rfl⟩ := List.exists_cons_of_ne_nil hne
  rw [hsplit] at hmarkless
  refine silent_of_markless hr ?_
  rw [List.reverse_cons, List.append_assoc]
  exact markless_drop hmarkless

end Attribute

/-- Replacing the matches of a pattern renames attributes. -/
theorem rewrites_spell (hr : Marks mark r) (hits : Hits mark r f keys target ok)
    (h : marksOnly mark keys before ps = true) (hok : Valued keys ok ps) :
    Rewrites r f before (spell ps) (spell (ps.map (rename keys target))) := by
  induction ps generalizing before with
  | nil => exact .nil (hr.2 _ _ (hr.1 _))
  | cons p ps ih =>
    cases p with
    | plain cs =>
      rw [marksOnly, Bool.and_eq_true] at h
      exact Rewrites.skips (silent_of_markless hr h.1) (ih h.2 hok.tail)
    | named name value =>
      simp only [marksOnly, Bool.and_eq_true, beq_iff_eq] at h
      obtain ⟨⟨hmark, hmarkless⟩, hrest⟩ := h
      have hgoes := ih hrest hok.tail
      rw [List.map_cons, spell_cons, spell_cons]
      cases hkey : keys.contains name with
      | false =>
        rw [text_rename_other target value hkey]
        have hnone := hr.2 _ _ (hmark.trans hkey)
        exact Rewrites.skips (silent_attributeText hr hnone hmarkless) hgoes
      | true =>
        -- the match ends within the attribute, and what is left of it is kept
        have hmem : name ∈ keys := by simpa using hkey
        obtain ⟨cs, cs', groups, hsplit, hne, hmatch, hf⟩ := hits name value before (spell ps) hmem
          (hok name value List.mem_cons_self hmem) (hmark.trans hkey)
        have htext : (Piece.named name value).text = cs ++ cs' := hsplit
        rw [text_rename target value hkey, ← hf, htext, List.append_assoc, List.append_assoc]
        refine .hit hne hmatch (Rewrites.skips (silent_behind_match hr hsplit hne hmarkless) ?_)
        rw [hsplit] at hgoes
        rwa [List.reverse_append, List.append_assoc] at hgoes

/-- A pattern that does not match at the attributes either matches nowhere. -/
theorem silent_spell (hr : Marks mark r) (hpasses : Passes r keys ok)
    (h : marksOnly mark keys before ps = true) (hok : Valued keys ok ps) :
    Silent r before (spell ps) [] := by
  induction ps generalizing before with
  | nil => exact Regex.silent_nil
  | cons p ps ih =>
    cases p with
    | plain cs =>
      rw [marksOnly, Bool.and_eq_true] at h
      refine Silent.append ?_ (ih h.2 hok.tail)
      rw [List.append_nil]
      exact silent_of_markless hr h.1
    | named name value =>
      simp only [marksOnly, Bool.and_eq_true, beq_iff_eq] at h
      obtain ⟨⟨hmark, hmarkless⟩, hrest⟩ := h
      have hfirst : Regex.run r (spot before (attributeText (name, value) ++ spell ps) []) some =
          none := by
        cases hkey : keys.contains name with
        | false => exact hr.2 _ _ (hmark.trans hkey)
        | true =>
          have hmem : name ∈ keys := by simpa using hkey
          exact hpasses name value before (spell ps) hmem (hok name value List.mem_cons_self hmem)
      refine Silent.append ?_ (ih hrest hok.tail)
      rw [List.append_nil]
      exact silent_attributeText hr hfirst hmarkless

theorem replaceAll_spell (hr : Marks mark r) (hits : Hits mark r f keys target ok)
    (h : marksOnly mark keys [] ps = true) (hok : Valued keys ok ps) :
    Regex.replaceAll r f (spell ps) = spell (ps.map (rename keys target)) :=
  (rewrites_spell hr hits h hok).replaceAll

theorem replaceAll_spell_self (hr : Marks mark r) (hpasses : Passes r keys ok)
    (h : marksOnly mark keys [] ps = true) (hok : Valued keys ok ps) :
    Regex.replaceAll r f (spell ps) = spell ps :=
  Regex.replaceAll_eq_self (silent_spell hr hpasses h hok) (hr.2 _ _ (hr.1 _))

theorem matchesIn_spell (hr : Marks mark r) (hpasses : Passes r keys ok)
    (h : marksOnly mark keys [] ps = true) (hok : Valued keys ok ps) :
    Regex.matchesIn r (spell ps) = false :=
  Regex.matchesIn_eq_false (silent_spell hr hpasses h hok) (hr.2 _ _ (hr.1 _))

end Piece

/-! ## The internal name -/

/-- The internal name of the class attribute begins here. -/
def isInternal (_ after : List Char) : Bool := ClassAttribute.internalName.toList.isPrefixOf after

theorem marks_internal :
    Piece.Marks isInternal (.text ClassAttribute.internalName) := by
  refine ⟨fun _ => rfl, fun before after h => ?_⟩
  refine Regex.refuses_of_yields Regex.yields_text (fun u hu => ?_) some
  have hstarts : ClassAttribute.internalName.toList <+: after := ⟨_, hu.symm⟩
  rw [← List.isPrefixOf_iff_prefix] at hstarts
  exact absurd (hstarts.symm.trans h) (by simp)

theorem hits_internal (target : String) :
    Piece.Hits isInternal (.text ClassAttribute.internalName) (fun _ => target.toList)
      [ClassAttribute.internalName] target fun _ => True := by
  intro name value before rest hname _ _
  rw [List.mem_singleton] at hname
  subst hname
  refine ⟨ClassAttribute.internalName.toList, '=' :: quoteValue value.toList, [], rfl, by decide,
    ?_, rfl⟩
  exact Regex.eats_text (t := ClassAttribute.internalName) some _ rfl

/-! ## Bindings -/

/-- A binding of the attribute begins here. -/
def isBinding (a : ClassAttribute) (before after : List Char) : Bool :=
  !before.head?.any (((CharSet.ofKind .word).or (.single '-')).contains ·) &&
    a.name.toList.isPrefixOf after &&
    ((after.drop a.name.toList.length).dropWhile Text.isBlank).head? == some '='

/-- A binding consists of the name of the attribute, an equals sign and blanks around it. -/
theorem exists_of_bound {a : ClassAttribute} {r : Regex} {s t : Cursor}
    {k : Cursor → Option Cursor} (h : Regex.run (Pattern.bound a ++ r) s k = some t) :
    (∀ c, s.before.head? = some c → ((CharSet.ofKind .word).or (.single '-')).contains c = false) ∧
      ∃ bl bl' u, (∀ c ∈ bl, Text.isBlank c = true) ∧ (∀ c ∈ bl', Text.isBlank c = true) ∧
        s.after = a.name.toList ++ (bl ++ '=' :: (bl' ++ u.after)) ∧ Regex.run r u k = some t := by
  have hlook : Regex.run (.look (some 1) true (.one ((CharSet.ofKind .word).or (.single '-')))) s
      (fun u => Regex.run
        (.seq (.seq (.seq (.seq (.text a.name) .blanks) (Pattern.char '=')) .blanks) r) u k) =
      some t := h
  rw [Regex.run_look_negated] at hlook
  split at hlook
  · rename_i hseen
    refine ⟨fun c hc => ?_, ?_⟩
    · rcases s with ⟨before, after, pos, groups⟩
      obtain ⟨before, rfl⟩ := List.head?_eq_some_iff.mp hc
      cases hset : ((CharSet.ofKind .word).or (.single '-')).contains c with
      | false => rfl
      | true => simp [Regex.seen, Cursor.back?, Regex.run, hset] at hseen
    · obtain ⟨u, ⟨v, ⟨w, ⟨x, htext, bl, hbl, hblanks⟩, hsign⟩, bl', hbl', hblanks'⟩, hu⟩ :=
        ((((Regex.yields_text).seq Token.yields_blanks).seq (Token.yields_char '=')).seq
          Token.yields_blanks) s _ t hlook
      exact ⟨bl, bl', u, hbl, hbl', by rw [htext, hblanks, hsign, hblanks'], hu⟩
  · cases hlook

section Bindings

variable {a : ClassAttribute} {r : Regex} {before after rest : List Char}

theorem marks_bound : Piece.Marks (isBinding a) (Pattern.bound a ++ r) := by
  constructor
  · intro before
    cases a <;> exact (Bool.and_eq_false_iff.mpr (Or.inl (Bool.and_false _)))
  · intro before after h
    cases hrun : Regex.run (Pattern.bound a ++ r) (spot before after []) some with
    | none => rfl
    | some t =>
      obtain ⟨hbefore, bl, bl', u, hbl, -, hafter, -⟩ := exists_of_bound hrun
      have hname : a.name.toList.isPrefixOf after = true :=
        List.isPrefixOf_iff_prefix.mpr ⟨_, hafter.symm⟩
      have hsign : ((after.drop a.name.toList.length).dropWhile Text.isBlank).head? = some '=' := by
        have hdrop : after.drop a.name.toList.length = bl ++ '=' :: (bl' ++ u.after) := by
          rw [show after = _ from hafter, List.drop_left]
        rw [hdrop, Token.head?_dropWhile_blanks hbl]
        · rfl
        · intro c hc
          cases hc
          rfl
      have hfirst :
          before.head?.any (((CharSet.ofKind .word).or (.single '-')).contains ·) = false := by
        cases hhead : before.head? with
        | none => rfl
        | some c => exact hbefore c hhead
      rw [isBinding, hname, hsign, hfirst] at h
      exact absurd h (by simp)

/-- The pattern matches only what begins with the character. -/
def BeginsWith (d : Char) (r : Regex) : Prop :=
  ∀ s k t, Regex.run r s k = some t → s.after.head? = some d

theorem beginsWith_char {d : Char} : BeginsWith d (Pattern.char d) := by
  intro s k t h
  obtain ⟨u, hu, -⟩ := Token.yields_char d s k t h
  rw [hu]
  rfl

theorem BeginsWith.seq {d : Char} {b : Regex} (h : BeginsWith d r) : BeginsWith d (.seq r b) :=
  fun s _ t ht => h s _ t ht

/-- A value in which the class attribute can be written as it is bound. -/
def Unquoted (value : String) : Prop := '"' ∉ value.toList

/-- No other spelling of a binding matches an attribute that is written in double quotes. -/
theorem passes_bound {d : Char} (hr : BeginsWith d r) (hd : d ≠ '"') :
    Piece.Passes (Pattern.bound a ++ r) [a.name] Unquoted := by
  intro name value before rest hname hvalue
  rw [List.mem_singleton] at hname
  subst hname
  cases hrun : Regex.run (Pattern.bound a ++ r)
      (spot before (attributeText (a.name, value) ++ rest) []) some with
  | none => rfl
  | some t =>
    obtain ⟨-, bl, bl', u, hbl, hbl', hafter, hu⟩ := exists_of_bound hrun
    have htext : attributeText (a.name, value) ++ rest =
        a.name.toList ++ ('=' :: '"' :: (escapeText value.toList ++ '"' :: rest)) := by
      rw [attributeText, quoteValue_of_not_mem hvalue]
      simp
    have hlist := List.append_cancel_left (htext.symm.trans hafter)
    exfalso
    cases bl with
    | cons c bl =>
      have hc : '=' = c := (List.cons.inj hlist).1
      exact absurd (hbl c List.mem_cons_self) (by rw [← hc]; decide)
    | nil =>
      have hquote := (List.cons.inj hlist).2
      cases bl' with
      | cons c bl' =>
        have hc : '"' = c := (List.cons.inj hquote).1
        exact absurd (hbl' c List.mem_cons_self) (by rw [← hc]; decide)
      | nil =>
        have hhead := hr u some t hu
        rw [List.nil_append] at hquote
        rw [← hquote] at hhead
        exact hd (Option.some.inj hhead).symm

theorem eats_bound {groups : List (Nat × Regex.Capture)}
    (hbefore : ∀ c, before.head? = some c →
      ((CharSet.ofKind .word).or (.single '-')).contains c = false)
    (hrest : ∀ c, rest.head? = some c → Text.isBlank c = false) :
    Eats (Pattern.bound a) (a.name.toList ++ ['=']) before rest groups groups := by
  have hlook : Eats (.look (some 1) true (.one ((CharSet.ofKind .word).or (.single '-')))) [] before
      (a.name.toList ++ (['='] ++ rest)) groups groups :=
    Regex.prefers_look_negated (Regex.seen_behind_none hbefore)
  have hname : Eats (.text a.name) a.name.toList before (['='] ++ rest) groups groups :=
    Regex.eats_text
  have hbound : Eats (Pattern.bound a) (((([] ++ a.name.toList) ++ []) ++ ['=']) ++ []) before rest
      groups groups :=
    (((hlook.seq hname).seq_nil (eats_blanks_nil fun c hc => by cases hc; rfl)).seq
      eats_char).seq_nil (eats_blanks_nil hrest)
  simpa only [List.append_nil, List.nil_append] using hbound

/-- The binding in double quotes is rewritten with its value. -/
theorem hits_bound (target : String) :
    Piece.Hits (isBinding a) (Pattern.bound a ++ Pattern.quoted '"')
      (fun m => target.toList ++ '=' :: inQuotes (m.group 1)) [a.name] target Unquoted := by
  intro name value before rest hname hvalue hmark
  rw [List.mem_singleton] at hname
  subst hname
  have hbefore : ∀ c, before.head? = some c →
      ((CharSet.ofKind .word).or (.single '-')).contains c = false := by
    intro c hc
    simp only [isBinding, hc, Bool.and_eq_true] at hmark
    simpa using hmark.1.1
  have hvalued : Eats (Pattern.quoted '"') ((['"'] ++ escapeText value.toList) ++ ['"'])
      ((a.name.toList ++ ['=']).reverse ++ before) rest []
      [(1, .of (escapeText value.toList) (['"'] ++ rest))] :=
    (eats_char.seq (eats_allBut (not_mem_escapeText hvalue)).group).seq eats_char
  have hbound : Eats (Pattern.bound a) (a.name.toList ++ ['=']) before
      (((['"'] ++ escapeText value.toList) ++ ['"']) ++ rest) [] [] :=
    eats_bound hbefore fun c hc => by cases hc; rfl
  have hmatch := hbound.seq hvalued
  have htext : ∀ name : String, attributeText (name, value) =
      (name.toList ++ ['=']) ++ ((['"'] ++ escapeText value.toList) ++ ['"']) := by
    intro name
    rw [attributeText, quoteValue_of_not_mem hvalue]
    simp
  refine ⟨attributeText (a.name, value), [], [(1, .of (escapeText value.toList) (['"'] ++ rest))],
    (List.append_nil _).symm, ?_, ?_, ?_⟩
  · rw [htext]
    simp
  · rw [htext]
    exact hmatch some _ rfl
  · dsimp only
    rw [Regex.Match.group_eq (List.lookup_cons_self ..), htext]
    simp [inQuotes]

/-! ## Rewriting bindings -/

variable {ps : List Piece} {target : String}

theorem beginsWith_braced : BeginsWith '\x7b' (Pattern.braced r) :=
  ((beginsWith_char.seq.seq).seq).seq

theorem beginsWith_quoted {q : Char} : BeginsWith q (Pattern.quoted q) :=
  (beginsWith_char.seq).seq

/-- Where all bindings of an attribute are written in double quotes, rewriting them renames it. -/
theorem rebind_spell (target : String) (h : Piece.marksOnly (isBinding a) [a.name] [] ps = true)
    (hvalued : Piece.Valued [a.name] Unquoted ps)
    (hlast : Regex.replaceAll (Pattern.bound a ++ Pattern.quoted '\'')
      (fun m => target.toList ++ '=' :: inQuotes (m.group 1))
      (Piece.spell (ps.map (Piece.rename [a.name] target))) =
        Piece.spell (ps.map (Piece.rename [a.name] target))) :
    rebind a target (Piece.spell ps) = Piece.spell (ps.map (Piece.rename [a.name] target)) := by
  have hbraced : ∀ (r : Regex) (f : Regex.Match → List Char),
      Regex.replaceAll (Pattern.bound a ++ Pattern.braced r) f (Piece.spell ps) =
        Piece.spell ps :=
    fun _ _ => Piece.replaceAll_spell_self marks_bound (passes_bound beginsWith_braced (by decide))
      h hvalued
  have hquoted := Piece.replaceAll_spell marks_bound (hits_bound target) h hvalued
  simp only [rebind, Pattern.literalBinding, Pattern.textBindings, List.foldl_cons, List.foldl_nil]
  rw [hbraced, hbraced, hbraced, hquoted, hlast]

section Unbound

variable (h : Piece.marksOnly (isBinding a) [] [] ps = true)

include h

/-- Where nothing binds an attribute, no pattern for bindings of it matches. -/
theorem replaceAll_of_none (r : Regex) (f : Regex.Match → List Char) :
    Regex.replaceAll (Pattern.bound a ++ r) f (Piece.spell ps) = Piece.spell ps := by
  have hpasses : Piece.Passes (Pattern.bound a ++ r) [] fun _ => True :=
    fun _ _ _ _ hmem => absurd hmem (by simp)
  exact Piece.replaceAll_spell_self marks_bound hpasses h fun _ _ _ hmem => absurd hmem (by simp)

theorem matchesIn_of_none (r : Regex) :
    Regex.matchesIn (Pattern.bound a ++ r) (Piece.spell ps) = false := by
  have hpasses : Piece.Passes (Pattern.bound a ++ r) [] fun _ => True :=
    fun _ _ _ _ hmem => absurd hmem (by simp)
  exact Piece.matchesIn_spell marks_bound hpasses h fun _ _ _ hmem => absurd hmem (by simp)

/-- Where nothing binds an attribute, nothing is rewritten. -/
theorem rebind_of_none (target : String) :
    rebind a target (Piece.spell ps) = Piece.spell ps ∧ isBound a (Piece.spell ps) = false := by
  have hself := replaceAll_of_none h
  have hno := matchesIn_of_none h
  constructor
  · simp only [rebind, Pattern.literalBinding, Pattern.textBindings, List.foldl_cons, List.foldl_nil]
    rw [hself, hself, hself, hself, hself]
  · simp only [isBound, Pattern.literalBinding, Pattern.textBindings, List.any_cons, List.any_nil]
    rw [hno, hno, hno, hno, hno]
    rfl

end Unbound

end Bindings

end BlockMarkup.Markup
