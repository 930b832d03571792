import BlockMarkup.Proofs.Markup.Cutting
import BlockMarkup.Proofs.Markup.Value

/-! # Written start tags

A tag is read in three steps: where it ends, what it is called, and which attributes it has. For a
tag with a name and attributes of the usual form, their values in quotes of either kind
(`Assignment.Readable`), all three agree with what stands there (`Token.scans_assignments`). So they do
for attributes as they are written (`Token.scans_tagToken`); these come back in lower case, of equal
ones the last (`Token.readBack`).
-/

namespace BlockMarkup.Markup

open BlockMarkup.Regex (CharSet Cursor Eats Refuses Prefers Rounds)
open BlockMarkup.Regex.Cursor (spot)
open Token (eats_char eats_blanks_nil)

variable {before rest tail : List Char} {groups : List (Nat × Regex.Capture)}

/-! ## Gaps -/

/-- One character of a gap between the parts of a tag. -/
def gapStep : Regex :=
  .alt (.one (.ofKind .blank)) (Pattern.char '/' ++ .look none true (Pattern.char '>'))

/-- No gap goes on here. -/
def EndsGap (rest : List Char) : Prop :=
  ∀ c, rest.head? = some c → Text.isBlank c = false ∧ (c = '/' → rest.tail.head? = some '>')

theorem refuses_gapStep (h : EndsGap rest) :
    Refuses (Regex.run gapStep) (spot before rest groups) := by
  refine Refuses.alt (Regex.refuses_one fun c hc => CharSet.contains_blank.trans (h c hc).1) ?_
  cases rest with
  | nil => exact Refuses.seq (refuses_char fun c hc => by cases hc)
  | cons c rest =>
    by_cases hc : c = '/'
    · subst hc
      obtain ⟨-, hslash⟩ := h '/' rfl
      obtain ⟨rest, rfl⟩ : ∃ rest', rest = '>' :: rest' := by
        cases rest with
        | nil => cases hslash rfl
        | cons d rest =>
          cases hslash rfl
          exact ⟨rest, rfl⟩
      -- the slash is consumed, and then the tag ends
      intro k
      have hseen : Regex.seen none (Pattern.char '>') (spot ('/' :: before) ('>' :: rest) groups) =
          some (spot ('>' :: '/' :: before) rest groups) := rfl
      exact Regex.refuses_look_negated hseen k
    · exact Refuses.seq (refuses_char fun d hd => by
        cases hd
        exact hc)

theorem eats_tagGap_nil (h : EndsGap rest) : Eats Pattern.tagGap [] before rest groups groups :=
  Rounds.eats_loop (.done (refuses_gapStep h))

theorem eats_tagGap_space (h : EndsGap rest) :
    Eats Pattern.tagGap [' '] before rest groups groups := by
  have hspace : Eats gapStep [' '] before ([] ++ rest) groups groups :=
    Eats.alt_left (Regex.eats_one rfl)
  exact Rounds.eats_loop (hspace.rounds (by simp) (.done (refuses_gapStep h)))

/-! ## Attributes -/

/-- The characters of the name of an attribute. -/
def keySet : CharSet := ((CharSet.ofKind .blank).or (.ofList ['/', '=', '>'])).not

/-- A name that an attribute can be written with: the parser reads it back. -/
structure Writable (key : List Char) : Prop where
  ne_nil : key ≠ []
  mem : ∀ c ∈ key, keySet.contains c = true

instance (key : List Char) : Decidable (Writable key) :=
  decidable_of_iff (key ≠ [] ∧ key.all keySet.contains = true)
    ⟨fun h => ⟨h.1, List.all_eq_true.mp h.2⟩, fun h => ⟨h.ne_nil, List.all_eq_true.mpr h.mem⟩⟩

theorem keySet_iff {c : Char} : keySet.contains c = true ↔
    Text.isBlank c = false ∧ c ≠ '/' ∧ c ≠ '=' ∧ c ≠ '>' := by
  rw [keySet, CharSet.contains_not, CharSet.contains_blank_or]
  simp

/-- A value in quotes of either kind, which do not stand in it. -/
def IsQuoted (w : List Char) : Prop :=
  ∃ q body, (q = '"' ∨ q = '\'') ∧ w = q :: (body ++ [q]) ∧ q ∉ body

theorem eats_attributeName {key : List Char} (h : Writable key)
    (hrest : ∀ c, rest.head? = some c → keySet.contains c = false) :
    Eats Pattern.attributeName key (' ' :: before) rest groups groups := by
  obtain ⟨c, key, rfl⟩ := List.exists_cons_of_ne_nil h.ne_nil
  have hkey := h.mem
  rw [List.forall_mem_cons] at hkey
  have hbehind : Eats (.look (some 1) false (.one ((CharSet.ofList ['\'', '"']).or
      ((CharSet.ofKind .blank).or (.single '/'))))) [] (' ' :: before) ([c] ++ (key ++ rest))
      groups groups :=
    Regex.prefers_look (Regex.seen_behind (by decide)) rfl
  have hfirst : Eats (.one ((CharSet.ofKind .blank).or (.ofList ['/', '>'])).not) [c] (' ' :: before)
      (key ++ rest) groups groups := by
    refine Regex.eats_one ?_
    obtain ⟨hblank, hslash, -, hangle⟩ := keySet_iff.mp hkey.1
    rw [CharSet.contains_not, CharSet.contains_blank_or]
    simp [hblank, hslash, hangle]
  exact (hbehind.seq hfirst).seq (Regex.eats_many hkey.2 hrest)

theorem eats_allBut {q : Char} {body : List Char} (hq : q ∉ body) :
    Eats (.allBut q) body before (q :: rest) groups groups := by
  refine Regex.eats_many (fun c hc => ?_) fun c hc => ?_
  · rw [CharSet.contains_not, CharSet.contains_single]
    have hne : c ≠ q := by
      rintro rfl
      exact hq hc
    simpa using hne
  · cases hc
    rw [CharSet.contains_not, CharSet.contains_single, beq_self_eq_true]
    rfl

theorem eats_quoted {q : Char} {body : List Char} (hq : q ∉ body) :
    Eats (Pattern.char q ++ .allBut q ++ Pattern.char q) (([q] ++ body) ++ [q]) before rest groups
      groups :=
  (eats_char.seq (eats_allBut hq)).seq eats_char

theorem eats_attributeValue {w : List Char} (hw : IsQuoted w) :
    Eats Pattern.attributeValue w before rest groups groups := by
  obtain ⟨q, body, hq, rfl, hbody⟩ := hw
  rcases hq with rfl | rfl
  · refine Eats.alt_right (Refuses.seq (Refuses.seq (refuses_char fun c hc => ?_))) ?_
    · cases hc
      decide
    · exact Eats.alt_left (eats_quoted hbody)
  · exact Eats.alt_left (eats_quoted hbody)

theorem eats_attributeSign (hrest : ∀ c, rest.head? = some c → Text.isBlank c = false ∧ c ≠ '=') :
    Eats Pattern.attributeSign (([] ++ ['=']) ++ []) before rest groups groups := by
  refine ((eats_blanks_nil fun c hc => ?_).seq
    (Regex.eats_span (by simp [CharSet.contains_single]) (by simp) rfl ?_)).seq
      (eats_blanks_nil fun c hc => (hrest c hc).1)
  · cases hc
    rfl
  · intro c hc
    rw [CharSet.contains_single, beq_eq_false_iff_ne]
    exact (hrest c hc).2

theorem IsQuoted.head? {w : List Char} (hw : IsQuoted w) {c : Char}
    (h : (w ++ rest).head? = some c) : c = '"' ∨ c = '\'' := by
  obtain ⟨q, body, hq, rfl, -⟩ := hw
  cases h
  exact hq

/-! ## Lists of attributes -/

/-- An attribute as it stands in a tag: its name, and its value in quotes. -/
structure Assignment where
  key : List Char
  quoted : List Char

namespace Assignment

/-- The text of an attribute. -/
def text (a : Assignment) : List Char := a.key ++ '=' :: a.quoted

/-- The parser finds the name and the value. -/
structure Readable (a : Assignment) : Prop where
  key : Writable a.key
  quoted : IsQuoted a.quoted

/-- The attributes that are found, this one among them. -/
def store (found : Attributes) (a : Assignment) : Attributes :=
  setAttribute (Text.lower (String.ofList a.key))
    (String.ofList (resolveValue (Token.unquote a.quoted))) found

end Assignment

/-- The text of attributes behind the name of a tag. -/
def assignmentsText (as : List Assignment) : List Char := as.flatMap fun a => ' ' :: a.text

/-- The gap before attributes. -/
def gapBefore : List Assignment → List Char
  | [] => []
  | _ :: _ => [' ']

/-- Attributes without the gap before them. -/
def packedText : List Assignment → List Char
  | [] => []
  | a :: as => a.text ++ assignmentsText as

variable {as : List Assignment}

theorem assignmentsText_eq (as : List Assignment) :
    assignmentsText as = gapBefore as ++ packedText as := by
  cases as <;> rfl

theorem packedText_cons (a : Assignment) (as : List Assignment) :
    packedText (a :: as) = a.text ++ gapBefore as ++ packedText as := by
  rw [packedText, assignmentsText_eq, List.append_assoc]

theorem length_le_packedText (as : List Assignment) : as.length ≤ (packedText as).length := by
  induction as with
  | nil => exact Nat.le_refl _
  | cons a as ih =>
    simp only [packedText_cons, Assignment.text, List.length_append, List.length_cons]
    omega

theorem head?_gapBefore {name before : List Char} (h : as ≠ []) :
    ((name ++ gapBefore as).reverse ++ before).head? = some ' ' := by
  obtain ⟨a, as, rfl⟩ := List.exists_cons_of_ne_nil h
  simp [gapBefore]

/-- What ends a tag. -/
def ClosesTag (close : List Char) : Prop := close = ['>'] ∨ close = ['/', '>']

/-- The parser finds all attributes. -/
def ReadableAll (as : List Assignment) : Prop := ∀ a ∈ as, a.Readable

variable {close : List Char}

theorem head?_packedText {a : Assignment} (ha : a.Readable) {c : Char}
    (hc : (packedText (a :: as) ++ rest).head? = some c) : keySet.contains c = true := by
  obtain ⟨d, key, hkey⟩ := List.exists_cons_of_ne_nil ha.key.ne_nil
  rw [packedText, Assignment.text, hkey] at hc
  cases hc
  exact ha.key.mem c (by rw [hkey]; exact List.mem_cons_self)

theorem endsGap_packedText (h : ReadableAll as) (hclose : ClosesTag close) :
    EndsGap (packedText as ++ (close ++ rest)) := by
  intro c hc
  cases as with
  | nil =>
    rcases hclose with rfl | rfl <;> cases hc
    · exact ⟨rfl, fun heq => absurd heq (by decide)⟩
    · exact ⟨rfl, fun _ => rfl⟩
  | cons a as =>
    obtain ⟨hblank, hslash, -⟩ := keySet_iff.mp (head?_packedText (h a List.mem_cons_self) hc)
    exact ⟨hblank, fun heq => absurd heq hslash⟩

theorem eats_tagGap (h : ReadableAll as) (hclose : ClosesTag close) :
    Eats Pattern.tagGap (gapBefore as) before (packedText as ++ (close ++ rest)) groups groups := by
  have hends : EndsGap (packedText as ++ (close ++ rest)) := endsGap_packedText h hclose
  cases as with
  | nil => exact eats_tagGap_nil hends
  | cons a as => exact eats_tagGap_space hends

theorem refuses_attributeName {s : Cursor}
    (h : ∀ c, s.after.head? = some c → c = '/' ∨ c = '>') :
    Refuses (Regex.run Pattern.attributeName) s := by
  refine Refuses.seq (Regex.refuses_seq_of_yields (Regex.yields_look _ _ _) fun u hu => ?_)
  refine Regex.refuses_one fun c hc => ?_
  rw [hu.1] at hc
  rcases h c hc with rfl | rfl <;> decide

theorem head?_closesTag (hclose : ClosesTag close) {c : Char} (hc : (close ++ rest).head? = some c) :
    c = '/' ∨ c = '>' := by
  rcases hclose with rfl | rfl <;> cases hc
  · exact Or.inr rfl
  · exact Or.inl rfl

theorem eats_attributeSign_quoted {w : List Char} (hw : IsQuoted w) :
    Eats Pattern.attributeSign ['='] before (w ++ rest) groups groups :=
  eats_attributeSign fun c hc => by
    rcases hw.head? hc with rfl | rfl <;> decide

theorem eats_assignment {w : List Char} (hw : IsQuoted w) :
    Eats (Pattern.attributeSign ++ Pattern.attributeValue) ('=' :: w) before rest groups groups :=
  (eats_attributeSign_quoted hw).seq (eats_attributeValue hw)

/-- An attribute as it is read, with its name and its value. -/
theorem exists_eats_namedValue {a : Assignment} (ha : a.Readable)
    {gap : List Char} (hgap : ∀ before groups, Eats Pattern.tagGap gap before rest groups groups)
    (before : List Char) : ∃ groups' rest₁ rest₃,
      Eats Pattern.namedValue (a.text ++ gap) (' ' :: before) rest [] groups' ∧
        groups'.lookup 1 = some (.of a.key rest₁) ∧
        groups'.lookup 3 = some (.of a.quoted rest₃) := by
  have hname : Eats Pattern.attributeName a.key (' ' :: before)
      ('=' :: (a.quoted ++ (gap ++ rest))) [] [] :=
    eats_attributeName ha.key fun c hc => by
      cases hc
      decide
  have hsign : ∀ groups, Eats Pattern.attributeSign ['='] (a.key.reverse ++ ' ' :: before)
      (a.quoted ++ (gap ++ rest)) groups groups :=
    fun _ => eats_attributeSign_quoted ha.quoted
  have hvalue : ∀ groups, Eats Pattern.attributeValue a.quoted
      (['='].reverse ++ (a.key.reverse ++ ' ' :: before)) (gap ++ rest) groups groups :=
    fun _ => eats_attributeValue ha.quoted
  exact ⟨_, '=' :: (a.quoted ++ (gap ++ rest)), gap ++ rest,
    (hname.group.seq ((hsign _).seq (hvalue _).group).group.alt_left).seq (hgap _ _), rfl, rfl⟩

namespace Token

/-- Quotes around a value are taken off. -/
theorem unquote_quoted {q : Char} (hq : q = '"' ∨ q = '\'') (body : List Char) :
    unquote (q :: (body ++ [q])) = body := by
  have hquote : ((q == '\'' || q == '"') && (q :: (body ++ [q])).getLast? == some q) = true := by
    rw [← List.cons_append, List.getLast?_concat]
    rcases hq with rfl | rfl <;> simp
  rw [unquote, if_pos hquote, List.dropLast_concat]

/-- Reading attributes goes through all that are written and stops at what ends the tag. -/
theorem exists_readAttributes (hclose : ClosesTag close) (stop : Nat) (rest : List Char)
    (as : List Assignment) (h : ReadableAll as) (fuel : Nat) (found : Attributes)
    (before : List Char) (groups : List (Nat × Regex.Capture)) (hfuel : as.length < fuel)
    (hstop : before.length + (packedText as).length < stop)
    (hgap : as ≠ [] → before.head? = some ' ') :
    ∃ groups', readAttributes stop fuel found
        (spot before (packedText as ++ (close ++ rest)) groups) =
      (as.foldl Assignment.store found,
        spot ((packedText as).reverse ++ before) (close ++ rest) groups') := by
  induction as generalizing fuel found before groups with
  | nil =>
    obtain ⟨fuel, rfl⟩ := Nat.exists_eq_add_of_lt hfuel
    have hnone : Regex.matchAt Pattern.namedValue (spot before (close ++ rest) groups) = none :=
      Regex.matchAt_eq_none (Refuses.seq (Refuses.seq (Refuses.group
        (refuses_attributeName fun c hc => head?_closesTag hclose hc))))
    have hpos : (spot before (close ++ rest) groups).pos < stop := by
      simpa [packedText, spot] using hstop
    refine ⟨groups, ?_⟩
    rw [readAttributes, packedText, List.nil_append, if_pos hpos, hnone]
    rfl
  | cons a as ih =>
    obtain ⟨fuel, rfl⟩ := Nat.exists_eq_add_of_lt hfuel
    obtain ⟨before, rfl⟩ := List.head?_eq_some_iff.mp (hgap (by simp))
    rw [ReadableAll, List.forall_mem_cons] at h
    -- one attribute with the gap behind it is matched, and the rest is read from there
    have hbehind : ∀ before groups, Eats Pattern.tagGap (gapBefore as) before
        (packedText as ++ (close ++ rest)) groups groups := fun _ _ => eats_tagGap h.2 hclose
    obtain ⟨groups₁, rest₁, rest₃, hmatch, hname, hvalue⟩ :=
      exists_eats_namedValue h.1 hbehind before
    have hmatched := hmatch.matchAt groups
    have hlength := congrArg List.length (packedText_cons a as)
    simp only [List.length_append] at hlength
    obtain ⟨groups', hread⟩ := ih h.2 ((a :: as).length + fuel)
      (a.store found) ((a.text ++ gapBefore as).reverse ++ ' ' :: before) groups₁
      (by simp only [List.length_cons]; omega)
      (by simp only [List.length_append, List.length_reverse]; omega)
      head?_gapBefore
    have hpos :
        (spot (' ' :: before) (packedText (a :: as) ++ (close ++ rest)) groups).pos < stop := by
      simp only [spot]
      omega
    refine ⟨groups', ?_⟩
    rw [readAttributes, if_pos hpos, packedText_cons, List.append_assoc, hmatched]
    dsimp only
    rw [Regex.Match.group_eq hname, Regex.Match.group_eq hvalue, ← Assignment.store, hread]
    simp only [List.foldl_cons, List.reverse_append, List.append_assoc]

end Token

/-! ## The extent of a start tag -/

/-- An attribute as it counts for the extent of a tag. -/
def extentStep : Regex :=
  Pattern.attributeName ++ .opt (Pattern.attributeSign ++ Pattern.attributeValue ++ .blanks) ++
    Pattern.tagGap

theorem eats_gapBefore (h : ReadableAll as) (hclose : ClosesTag close) :
    Eats Regex.blanks (gapBefore as) before (packedText as ++ (close ++ rest)) groups groups := by
  have hends : EndsGap (packedText as ++ (close ++ rest)) := endsGap_packedText h hclose
  refine Regex.eats_many ?_ fun c hc => CharSet.contains_blank.trans (hends c hc).1
  cases as with
  | nil => simp [gapBefore]
  | cons a as =>
    intro c hc
    cases List.mem_singleton.mp hc
    decide

theorem eats_extentStep {a : Assignment} (ha : a.Readable) (h : ReadableAll as)
    (hclose : ClosesTag close) :
    Eats extentStep (a.text ++ gapBefore as) (' ' :: before) (packedText as ++ (close ++ rest))
      groups groups := by
  have hname : Eats Pattern.attributeName a.key (' ' :: before)
      ((('=' :: a.quoted) ++ gapBefore as) ++ (packedText as ++ (close ++ rest))) groups groups :=
    eats_attributeName ha.key fun c hc => by
      cases hc
      decide
  have hvalue : Eats (.opt (Pattern.attributeSign ++ Pattern.attributeValue ++ .blanks))
      (('=' :: a.quoted) ++ gapBefore as) (a.key.reverse ++ ' ' :: before)
      (packedText as ++ (close ++ rest)) groups groups :=
    ((eats_assignment ha.quoted).seq (eats_gapBefore h hclose)).alt_left
  have hgap : Eats Pattern.tagGap []
      ((a.key ++ (('=' :: a.quoted) ++ gapBefore as)).reverse ++ ' ' :: before)
      (packedText as ++ (close ++ rest)) groups groups :=
    eats_tagGap_nil (endsGap_packedText h hclose)
  have hstep : Eats extentStep
      ((a.key ++ (('=' :: a.quoted) ++ gapBefore as)) ++ []) (' ' :: before)
      (packedText as ++ (close ++ rest)) groups groups :=
    (hname.seq hvalue).seq_nil hgap
  rw [List.append_nil, ← List.append_assoc] at hstep
  exact hstep

theorem rounds_extentStep (hclose : ClosesTag close) (as : List Assignment) (h : ReadableAll as)
    (before : List Char) (hgap : as ≠ [] → before.head? = some ' ') :
    Rounds (Regex.run extentStep) (spot before (packedText as ++ (close ++ rest)) groups)
      (spot ((packedText as).reverse ++ before) (close ++ rest) groups) := by
  induction as generalizing before with
  | nil =>
    exact .done (Refuses.seq (Refuses.seq (refuses_attributeName fun c hc =>
      head?_closesTag hclose hc)))
  | cons a as ih =>
    obtain ⟨before, rfl⟩ := List.head?_eq_some_iff.mp (hgap (by simp))
    rw [ReadableAll, List.forall_mem_cons] at h
    rw [packedText_cons]
    refine (eats_extentStep h.1 h.2 hclose).rounds ?_ (ih h.2 _ head?_gapBefore)
    simp [Assignment.text]

/-- The part of the extent behind the name of the tag. -/
def extentRest : Regex :=
  .opt (.many ((CharSet.ofKind .blank).or (.single '/')) ++ .loop extentStep 0 none .greedy)

/-- The extent goes over the attributes, and over the slash at the end if there are none. -/
theorem exists_eats_extentRest (hclose : ClosesTag close) (h : ReadableAll as)
    (before rest : List Char) (groups : List (Nat × Regex.Capture)) :
    ∃ eaten left, assignmentsText as ++ close = eaten ++ left ∧ ClosesTag left ∧
      Eats extentRest eaten before (left ++ rest) groups groups := by
  have hgap : ∀ {cs rest : List Char}, (∀ c ∈ cs, c = ' ' ∨ c = '/') →
      (∀ c, rest.head? = some c → Text.isBlank c = false ∧ c ≠ '/') →
      Eats (.many ((CharSet.ofKind .blank).or (.single '/'))) cs before rest groups groups := by
    intro cs rest hcs hrest
    refine Regex.eats_many (fun c hc => ?_) fun c hc => ?_
    · rcases hcs c hc with rfl | rfl <;> decide
    · obtain ⟨hblank, hslash⟩ := hrest c hc
      exact (CharSet.contains_blank_or ['/']).trans (by simp [hblank, hslash])
  cases as with
  | nil =>
    have hends : Eats (.loop extentStep 0 none .greedy) [] ((close.dropLast).reverse ++ before)
        ('>' :: rest) groups groups :=
      Rounds.eats_loop (.done (Refuses.seq (Refuses.seq (refuses_attributeName fun c hc => by
        cases hc
        exact Or.inr rfl))))
    rcases hclose with rfl | rfl
    · exact ⟨[], ['>'], rfl, Or.inl rfl,
        ((hgap (by simp) fun c hc => by cases hc; decide).seq_nil hends).alt_left⟩
    · exact ⟨['/'], ['>'], rfl, Or.inl rfl,
        ((hgap (by simp) fun c hc => by cases hc; decide).seq_nil hends).alt_left⟩
  | cons a as =>
    refine ⟨[' '] ++ packedText (a :: as), close, by rw [assignmentsText_eq]; rfl, hclose, ?_⟩
    refine ((hgap (by simp) fun c hc => ?_).seq ?_).alt_left
    · obtain ⟨hblank, hslash, -⟩ := keySet_iff.mp (head?_packedText (h a List.mem_cons_self) hc)
      exact ⟨hblank, hslash⟩
    · exact Rounds.eats_loop (rounds_extentStep hclose (a :: as) h _ fun _ => rfl)

/-! ## Start tags -/

namespace Token

variable {name : List Char}

theorem head?_behind_name (hclose : ClosesTag close) {c : Char}
    (hc : (assignmentsText as ++ (close ++ rest)).head? = some c) : c = ' ' ∨ c = '/' ∨ c = '>' := by
  cases as with
  | nil => exact Or.inr (head?_closesTag hclose hc)
  | cons a as =>
    cases hc
    exact Or.inl rfl

theorem eats_nameRest {cs : List Char} (hcs : ∀ c ∈ cs, nameSet.contains c = true)
    (hclose : ClosesTag close) :
    Eats (.many Pattern.tagNameSet) cs before (assignmentsText as ++ (close ++ rest)) groups
      groups := by
  refine Regex.eats_many (fun c hc => tagNameSet_of_nameSet (hcs c hc)) fun c hc => ?_
  rcases head?_behind_name hclose hc with rfl | rfl | rfl <;> decide

theorem eats_startTagExtent {c : Char} {cs eaten left : List Char}
    (hname : Nameable (c :: cs)) (hclose : ClosesTag close)
    (hsplit : assignmentsText as ++ close = eaten ++ left) (hleft : ClosesTag left)
    (hrest : Eats extentRest eaten ((['<'] ++ [c] ++ cs).reverse ++ before) (left ++ rest) [] []) :
    Eats Pattern.startTagExtent (((['<'] ++ [c] ++ cs) ++ eaten) ++ []) before (left ++ rest)
      [] [] := by
  have hc : Pattern.letterSet.contains c = true := by
    obtain ⟨d, ds, heq, hd⟩ := hname.first
    cases heq
    exact hd
  have hcs : ∀ d ∈ cs, nameSet.contains d = true := fun d hd =>
    hname.rest d (List.mem_cons_of_mem _ hd)
  have hnameRest : Eats (.many Pattern.tagNameSet) cs ((['<'] ++ [c]).reverse ++ before)
      (eaten ++ (left ++ rest)) [] [] := by
    have heats : Eats (.many Pattern.tagNameSet) cs ((['<'] ++ [c]).reverse ++ before)
        (assignmentsText as ++ (close ++ rest)) [] [] := eats_nameRest hcs hclose
    rwa [← List.append_assoc, hsplit, List.append_assoc] at heats
  refine Eats.seq_nil (((eats_char.seq (Regex.eats_one hc)).seq hnameRest).seq hrest)
    (eats_blanks_nil fun d hd => ?_)
  rcases head?_closesTag hleft hd with rfl | rfl <;> rfl

/-- The end of a start tag is found. -/
theorem tagEnd?_eq (hname : Nameable name) (h : ReadableAll as)
    (hclose : ClosesTag close) (before rest : List Char) (groups : List (Nat × Regex.Capture)) :
    tagEnd?
      (spot before (('<' :: (name ++ (assignmentsText as ++ close))) ++ rest) groups) =
        some (spot (('<' :: (name ++ (assignmentsText as ++ close))).reverse ++ before) rest []) := by
  obtain ⟨c, cs, rfl, -⟩ := hname.first
  obtain ⟨eaten, left, hsplit, hleft, hrest⟩ := 
    exists_eats_extentRest hclose h ((['<'] ++ [c] ++ cs).reverse ++ before) rest []
  have hmatch := (eats_startTagExtent hname hclose hsplit hleft hrest).matchAt groups
  have hend := Cursor.advance_spot left
    (((['<'] ++ [c] ++ cs ++ eaten) ++ []).reverse ++ before) rest []
  have hlist : ((['<'] ++ [c] ++ cs ++ eaten) ++ []) ++ (left ++ rest) =
      ('<' :: ((c :: cs) ++ (assignmentsText as ++ close))) ++ rest := by
    rw [hsplit]
    simp
  have hback : left.reverse ++ (((['<'] ++ [c] ++ cs ++ eaten) ++ []).reverse ++ before) =
      ('<' :: ((c :: cs) ++ (assignmentsText as ++ close))).reverse ++ before := by
    rw [hsplit]
    simp
  rw [hlist] at hmatch
  rw [hback] at hend
  rw [tagEnd?, hmatch]
  rcases hleft with rfl | rfl
  · exact congrArg some hend
  · exact congrArg some hend

theorem eats_tagName (hname : Nameable name) (h : ReadableAll as) (hclose : ClosesTag close)
    (before rest : List Char) :
    Eats Pattern.tagName (name ++ gapBefore as) before (packedText as ++ (close ++ rest)) []
      [(1, .of name (assignmentsText as ++ (close ++ rest)))] := by
  obtain ⟨c, cs, rfl, hc⟩ := hname.first
  have hcs : ∀ d ∈ cs, nameSet.contains d = true := fun d hd =>
    hname.rest d (List.mem_cons_of_mem _ hd)
  have hgroup : Eats (.group 1 (.one Pattern.letterSet ++ .many Pattern.tagNameSet)) ([c] ++ cs)
      before (assignmentsText as ++ (close ++ rest)) []
      [(1, .of ([c] ++ cs) (assignmentsText as ++ (close ++ rest)))] :=
    ((Regex.eats_one hc).seq (eats_nameRest hcs hclose)).group
  rw [assignmentsText_eq, List.append_assoc] at hgroup ⊢
  exact hgroup.seq (eats_tagGap h hclose)

/-- The token of a start tag that ends in the given way. -/
def tagToken (close : List Char) (name : String) (attributes : Attributes) : Token :=
  if close = ['>'] then .startTag name attributes else .emptyTag name attributes

@[simp] theorem tagToken_start {name : String} {attributes : Attributes} :
    tagToken ['>'] name attributes = .startTag name attributes := if_pos rfl

@[simp] theorem tagToken_empty {name : String} {attributes : Attributes} :
    tagToken ['/', '>'] name attributes = .emptyTag name attributes := if_neg (by decide)

/-- A start tag is read with its name and its attributes. -/
theorem exists_readStartTag (hname : Nameable name) (h : ReadableAll as)
    (hclose : ClosesTag close) (before rest : List Char) (groups : List (Nat × Regex.Capture)) :
    ∃ groups', readStartTag
      (spot before (('<' :: (name ++ (assignmentsText as ++ close))) ++ rest) groups) =
        some ([tagToken close (String.ofList name) (as.foldl Assignment.store [])],
          spot (('<' :: (name ++ (assignmentsText as ++ close))).reverse ++ before) rest groups') := by
  have hlist : ('<' :: (name ++ (assignmentsText as ++ close))) ++ rest =
      '<' :: ((name ++ gapBefore as) ++ (packedText as ++ (close ++ rest))) := by
    simp [assignmentsText_eq]
  have hback : ('<' :: (name ++ (assignmentsText as ++ close))).reverse ++ before =
      close.reverse ++
        ((packedText as).reverse ++ ((name ++ gapBefore as).reverse ++ '<' :: before)) := by
    simp [assignmentsText_eq]
  have hend := tagEnd?_eq hname h hclose before rest groups
  have hmatched := (eats_tagName hname h hclose ('<' :: before) rest).matchAt groups
  rw [hlist, hback] at hend
  obtain ⟨groups', hread⟩ := exists_readAttributes hclose
    (spot (close.reverse ++ ((packedText as).reverse ++
      ((name ++ gapBefore as).reverse ++ '<' :: before))) rest []).pos rest as h
    ((spot before ('<' :: ((name ++ gapBefore as) ++ (packedText as ++ (close ++ rest))))
      groups).after.length + 1) [] ((name ++ gapBefore as).reverse ++ '<' :: before)
    [(1, .of name (assignmentsText as ++ (close ++ rest)))]
    -- there is fuel for all attributes, and all of them stand before the end of the tag
    (by
      have hlength := length_le_packedText as
      simp only [spot, List.length_cons, List.length_append]
      omega)
    (by
      have hlength : 0 < close.length := by rcases hclose with rfl | rfl <;> simp
      simp only [spot, List.length_append, List.length_reverse]
      omega)
    head?_gapBefore
  have hclosing := Cursor.textTo_spot close
    ((packedText as).reverse ++ ((name ++ gapBefore as).reverse ++ '<' :: before)) rest groups' []
  refine ⟨[], ?_⟩
  have hstart : (spot before ('<' :: ((name ++ gapBefore as) ++ (packedText as ++ (close ++ rest))))
      groups).advance 1 =
        spot ('<' :: before) ((name ++ gapBefore as) ++ (packedText as ++ (close ++ rest)))
          groups := rfl
  rw [hlist, hback, readStartTag, hend, hstart, hmatched]
  dsimp only [Option.bind_eq_bind, Option.bind_some, Option.pure_def]
  rw [Regex.Match.group_eq (List.lookup_cons_self ..), hname.lower, hread, hclosing]
  rcases hclose with rfl | rfl <;> rfl

theorem readTag_of_isAlpha {s : Cursor} {m c : Char} {more : List Char}
    (hafter : s.after = m :: c :: more) (hc : c.isAlpha = true) :
    readTag s = .ok (readStartTag s) := by
  have hne : ∀ d : Char, d.isAlpha = false → c ≠ d := by
    rintro d hd rfl
    exact absurd (hc.symm.trans hd) (by simp)
  unfold readTag
  simp only [hafter]
  -- none of the signs that begin something else is a letter
  split
  all_goals simp_all

/-- A start tag is cut in one step. -/
theorem exists_readTag_assignments (hname : Nameable name) (h : ReadableAll as)
    (hclose : ClosesTag close) (before rest : List Char) (groups : List (Nat × Regex.Capture)) :
    ∃ groups', readTag
      (spot before ('<' :: ((name ++ (assignmentsText as ++ close)) ++ rest)) groups) =
        .ok (some ([tagToken close (String.ofList name) (as.foldl Assignment.store [])],
          spot ((name ++ (assignmentsText as ++ close)).reverse ++ '<' :: before) rest groups')) := by
  obtain ⟨groups', hread⟩ := exists_readStartTag hname h hclose before rest groups
  obtain ⟨c, cs, rfl, hc⟩ := hname.first
  refine ⟨groups', (readTag_of_isAlpha rfl (isAlpha_of_letterSet hc)).trans (congrArg _ ?_)⟩
  rw [List.reverse_cons, List.append_assoc] at hread
  exact hread

theorem scans_assignments (hname : Nameable name) (h : ReadableAll as) (hclose : ClosesTag close)
    (rest : List Char)
    (hraw : rawAfter [tagToken close (String.ofList name) (as.foldl Assignment.store [])] = none) :
    Scans ('<' :: (name ++ (assignmentsText as ++ close)))
      [tagToken close (String.ofList name) (as.foldl Assignment.store [])] rest :=
  scans_tag hraw fun before groups => exists_readTag_assignments hname h hclose before rest groups

end Token

/-! ## Attributes as they are written -/

/-- How an attribute is written. -/
def attributeText (a : String × String) : List Char := a.1.toList ++ '=' :: quoteValue a.2.toList

/-- How attributes are written behind the name of a tag. -/
def attributesText (as : Attributes) : List Char := as.flatMap fun a => ' ' :: attributeText a

/-- All attributes can be written. -/
def WritableAttributes (as : Attributes) : Prop := ∀ a ∈ as, Writable a.1.toList

instance (as : Attributes) : Decidable (WritableAttributes as) :=
  inferInstanceAs (Decidable (∀ _ ∈ _, _))

/-- The attribute as it is written. -/
def Assignment.ofAttribute (a : String × String) : Assignment := ⟨a.1.toList, quoteValue a.2.toList⟩

theorem assignmentsText_map (as : Attributes) :
    assignmentsText (as.map Assignment.ofAttribute) = attributesText as := by
  rw [assignmentsText, List.flatMap_map]
  rfl

theorem WritableAttributes.readableAll {as : Attributes} (h : WritableAttributes as) :
    ReadableAll (as.map Assignment.ofAttribute) := by
  intro a ha
  obtain ⟨b, hb, rfl⟩ := List.mem_map.mp ha
  obtain ⟨q, body, hq, hv, hbody, -⟩ := quoteValue_spec b.2.toList
  exact ⟨h b hb, q, body, hq, hv, hbody⟩

/-- A value is read back from how it is written. -/
theorem Assignment.store_ofAttribute (found : Attributes) (a : String × String) :
    store found (ofAttribute a) = setAttribute (Text.lower a.1) a.2 found := by
  obtain ⟨q, body, hq, hv, -, hbody⟩ := quoteValue_spec a.2.toList
  rw [store, ofAttribute, hv, Token.unquote_quoted hq, hbody, String.ofList_toList,
    String.ofList_toList]

namespace Token

variable {as : Attributes} {name : List Char}

/-- The attributes that are read where these are written. -/
def readBack (as : Attributes) : Attributes :=
  as.foldl (fun found a => setAttribute (Text.lower a.1) a.2 found) []

theorem foldl_store (as : Attributes) :
    (as.map Assignment.ofAttribute).foldl Assignment.store [] = readBack as := by
  rw [List.foldl_map, readBack]
  simp only [Assignment.store_ofAttribute]

theorem exists_readTag (hname : Nameable name) (h : WritableAttributes as) (hclose : ClosesTag close)
    (before rest : List Char) (groups : List (Nat × Regex.Capture)) : ∃ groups', readTag
      (spot before ('<' :: ((name ++ (attributesText as ++ close)) ++ rest)) groups) =
        .ok (some ([tagToken close (String.ofList name) (readBack as)],
          spot ((name ++ (attributesText as ++ close)).reverse ++ '<' :: before) rest groups')) := by
  rw [← assignmentsText_map, ← foldl_store]
  exact exists_readTag_assignments hname h.readableAll hclose before rest groups

theorem scans_tagToken (hname : Nameable name) (h : WritableAttributes as)
    (hclose : ClosesTag close) (rest : List Char)
    (hraw : rawAfter [tagToken close (String.ofList name) (readBack as)] = none) :
    Scans ('<' :: (name ++ (attributesText as ++ close)))
      [tagToken close (String.ofList name) (readBack as)] rest := by
  rw [← foldl_store] at hraw ⊢
  rw [← assignmentsText_map]
  exact scans_assignments hname h.readableAll hclose rest hraw

end Token

end BlockMarkup.Markup
