import BlockMarkup.Regex.Reader
import BlockMarkup.Regex.Match

/-! # Reading written patterns

What the reader makes of a pattern that is put together from written parts: characters, behind a backslash
or not, sets of ranges, groups, and marks of repetition. Units read as parts if, wherever they stand in a
sequence, they add just these parts to it (`ReadsAs`), and this is so of two pieces of writing one behind
the other if it is so of each (`ReadsAs.append`). A text of such units is read as the parts in sequence
(`read_of_readsAs`), which run one after the other (`run_joinParts`).
-/

namespace BlockMarkup.Regex

open Reader

variable {s : ReadState} {ts us ms rest : List Token} {ps qs parts acc : List Part} {r : Regex}
variable {fuel least : Nat} {most : Option Nat} {leading top first : Bool} {c : Char}

/-! ## Steps of the reader -/

/-- The same state before other units. -/
def ReadState.at (s : ReadState) (ts : List Token) : ReadState := { s with tokens := ts }

theorem bind_apply {α β : Type} (m : Reader α) (f : α → Reader β) (s : ReadState) :
    (m >>= f) s = (m s >>= fun p => f p.1 p.2) := rfl

theorem bind_eq_of_ok {α β : Type} {m : Reader α} {f : α → Reader β} {s t : ReadState} {a : α}
    (h : m s = .ok (a, t)) : (m >>= f) s = f a t := by
  rw [bind_apply, h]
  rfl

/-- What stands here has no effect on the part before it. -/
def Opens (ts : List Token) : Prop :=
  ∀ t ∈ ts.head?, t ≠ .plain '?' ∧ t ≠ .plain '+' ∧ t ≠ .dangling

theorem Opens.append (hts : Opens ts) (hrest : Opens rest) : Opens (ts ++ rest) := by
  cases ts with
  | nil => exact hrest
  | cons t ts => exact hts

/-- A sequence ends here. -/
def Ends (ts : List Token) : Prop := ∀ t ∈ ts.head?, t = .plain '|' ∨ t = .plain ')'

theorem Ends.opens (h : Ends ts) : Opens ts := by
  intro t ht
  rcases h t ht with rfl | rfl
  · exact ⟨by decide, by decide, by decide⟩
  · exact ⟨by decide, by decide, by decide⟩

theorem readSequence_end (h : Ends ts) : readSequence (fuel + 1) {} leading acc (s.at ts) =
    .ok (joinParts acc, s.at ts) := by
  cases ts with
  | nil => rfl
  | cons t ts =>
    rcases h t rfl with rfl | rfl
    · rfl
    · rfl

/-- The characters that mean something where a part may begin. -/
def signs : List Char := ['|', ')', '[', '?', '*', '+', '\x7b', '.', '^', '$', '(']

theorem readSequence_plain (hc : c ∉ signs) :
    readSequence (fuel + 1) {} leading acc (s.at (.plain c :: rest)) =
      readSequence fuel {} leading (⟨.other, .one (.single c)⟩ :: acc) (s.at rest) := by
  have hpeek : peek (s.at (.plain c :: rest)) = .ok (some (.plain c), s.at (.plain c :: rest)) := rfl
  have htake : take (s.at (.plain c :: rest)) = .ok (some (.plain c), s.at rest) := rfl
  simp only [signs, List.mem_cons, List.not_mem_nil, or_false, not_or] at hc
  obtain ⟨hbar, hclose, hset, hmaybe, hstar, hplus, hbrace, hdot, hstart, hend, hopen⟩ := hc
  rw [readSequence, bind_eq_of_ok hpeek]
  dsimp only
  simp only [Bool.false_and, Bool.false_eq_true, if_false]
  exact bind_eq_of_ok htake

/-- A character behind a backslash stands for itself, if it is neither a letter nor a digit. -/
theorem readEscape_of_not_isAlphanum (hc : c.isAlphanum = false) :
    readEscape {} c s = .ok (.code c.toNat, s) := by
  have hcontrol : c ≠ '\\' → controlCode? c = none := by
    intro hne
    unfold controlCode?
    split <;> first | rfl | contradiction
  have hkind : kindEscape? c = none := by
    unfold kindEscape?
    split <;> first | rfl | exact absurd hc (by decide)
  have hletters : c ≠ 'x' ∧ c ≠ 'u' ∧ c ≠ 'U' := by
    refine ⟨?_, ?_, ?_⟩ <;> rintro rfl <;> exact absurd hc (by decide)
  have hdigit : c.isDigit = false := by
    simp only [Char.isAlphanum, Bool.or_eq_false_iff] at hc
    exact hc.2
  unfold readEscape
  split
  iterate 5 exact absurd hc (by decide)
  by_cases hne : c = '\\'
  · subst hne
    rfl
  · simp [hcontrol hne, hkind, hdigit, readPlainEscape, hletters, hc]
    rfl

theorem readSequence_escaped (hc : c.isAlphanum = false) :
    readSequence (fuel + 1) {} leading acc (s.at (.escaped c :: rest)) =
      readSequence fuel {} leading (⟨.other, .one (.single c)⟩ :: acc) (s.at rest) := by
  have hstep : readSequence (fuel + 1) {} leading acc (s.at (.escaped c :: rest)) =
      (readEscape {} c >>= fun e => readSequence fuel {} leading (escapePart {} e :: acc))
        (s.at rest) := rfl
  rw [hstep, bind_eq_of_ok (readEscape_of_not_isAlphanum hc)]
  rfl

/-! ## Sets of ranges -/

/-- A range as it is written. -/
def rangeTokens (range : Char × Char) : List Token := [.plain range.1, .plain '-', .plain range.2]

/-- The set lists ranges, and no character in it has a meaning of its own. -/
def IsRanges (ranges : List (Char × Char)) : Prop :=
  ranges ≠ [] ∧ ∀ range ∈ ranges, range.1 ∉ ['\\', ']', '^'] ∧ range.2 ∉ ['\\', ']'] ∧
    range.1.toNat ≤ range.2.toNat

theorem readSetItems_ranges {ranges : List (Char × Char)}
    (h : ∀ range ∈ ranges, range.1 ∉ ['\\', ']', '^'] ∧ range.2 ∉ ['\\', ']'] ∧
      range.1.toNat ≤ range.2.toNat)
    (hfirst : first = true → ranges ≠ []) (hfuel : ranges.length < fuel) :
    readSetItems false fuel first (s.at (ranges.flatMap rangeTokens ++ .plain ']' :: rest)) =
      .ok (ranges.map fun (a, b) => .range a.toNat b.toNat, s.at rest) := by
  induction ranges generalizing fuel first with
  | nil =>
    obtain ⟨fuel, rfl⟩ := Nat.exists_eq_add_of_lt hfuel
    cases first with
    | true => exact absurd rfl (hfirst rfl)
    | false => rfl
  | cons range ranges ih =>
    obtain ⟨fuel, rfl⟩ : ∃ k, fuel = k + 1 := ⟨fuel - 1, by omega⟩
    obtain ⟨a, b⟩ := range
    obtain ⟨⟨ha, hb, hle⟩, hranges⟩ := List.forall_mem_cons.mp h
    have hrest : readSetItems false fuel false (s.at (ranges.flatMap rangeTokens ++ .plain ']' :: rest)) =
        .ok (ranges.map fun (a, b) => .range a.toNat b.toNat, s.at rest) :=
      ih hranges (fun h => by cases h) (Nat.lt_of_succ_lt_succ hfuel)
    simp only [List.mem_cons, List.not_mem_nil, or_false, not_or] at ha hb
    -- the first character does not close the set, and neither does the one behind the hyphen
    have hstep : readSetItems false (fuel + 1) first
        (s.at (((a, b) :: ranges).flatMap rangeTokens ++ .plain ']' :: rest)) =
          (readSetItems false fuel false >>= fun items =>
            pure (.range a.toNat b.toNat :: items))
              (s.at (ranges.flatMap rangeTokens ++ .plain ']' :: rest)) := by
      have hfirst : ¬ (decide (some (Token.plain a) = some (.plain ']')) && !first) = true := by
        simp [ha.2.1]
      have hlast : ¬ some (Token.plain b) = some (.plain ']') := by simp [hb.2]
      have htake : ∀ (t : Token) (more : List Token),
          take (s.at (t :: more)) = .ok (some t, s.at more) := fun _ _ => rfl
      have hmember : ∀ (x : Char) (more : List Token),
          readSetMember (some (.plain x)) (s.at more) = .ok (.code x.toNat, s.at more) := fun _ _ => rfl
      have hhyphen : ∀ more : List Token,
          accept '-' (s.at (.plain '-' :: more)) = .ok (true, s.at more) := fun _ => rfl
      rw [readSetItems]
      simp only [List.flatMap_cons, rangeTokens, List.cons_append, List.nil_append]
      rw [bind_eq_of_ok (htake _ _), if_neg hfirst, bind_eq_of_ok (hmember _ _),
        bind_eq_of_ok (hhyphen _), if_pos rfl, bind_eq_of_ok (htake _ _), if_neg hlast,
        bind_eq_of_ok (hmember _ _)]
      dsimp only
      rw [if_neg (Nat.not_lt_of_le hle)]
    rw [hstep, bind_eq_of_ok hrest]
    rfl

/-- A set as it is written. -/
def setTokens (ranges : List (Char × Char)) : List Token :=
  .plain '[' :: (ranges.flatMap rangeTokens ++ [.plain ']'])

theorem readSet_ranges {ranges : List (Char × Char)} (h : IsRanges ranges) :
    readSet {} (s.at (ranges.flatMap rangeTokens ++ .plain ']' :: rest)) =
      .ok (⟨ranges.map fun (a, b) => .range a.toNat b.toNat, false, .exact⟩, s.at rest) := by
  obtain ⟨hne, hranges⟩ := h
  have hnegated : accept '^' (s.at (ranges.flatMap rangeTokens ++ .plain ']' :: rest)) =
      .ok (false, s.at (ranges.flatMap rangeTokens ++ .plain ']' :: rest)) := by
    obtain ⟨⟨a, b⟩, more, rfl⟩ := List.exists_cons_of_ne_nil hne
    have ha := (hranges _ List.mem_cons_self).1
    simp only [List.mem_cons, List.not_mem_nil, or_false, not_or] at ha
    have hother : ¬ '^' = a := fun h => ha.2.2 h.symm
    simp only [List.flatMap_cons, rangeTokens, List.cons_append, accept]
    rw [bind_eq_of_ok (t := s.at _) rfl]
    dsimp only [ReadState.at]
    rw [if_neg hother]
    rfl
  have hlength : ranges.length < (ranges.flatMap rangeTokens ++ .plain ']' :: rest).length + 1 := by
    have hflat : (ranges.flatMap rangeTokens).length = ranges.length * 3 := by
      simp [List.length_flatMap, rangeTokens, List.map_const']
    rw [List.length_append, hflat]
    omega
  have hget : (get : Reader ReadState) (s.at (ranges.flatMap rangeTokens ++ .plain ']' :: rest)) =
      .ok (s.at (ranges.flatMap rangeTokens ++ .plain ']' :: rest),
        s.at (ranges.flatMap rangeTokens ++ .plain ']' :: rest)) := rfl
  rw [readSet, bind_eq_of_ok hnegated, bind_eq_of_ok hget]
  exact bind_eq_of_ok (readSetItems_ranges hranges (fun _ => hne) hlength)

/-! ## Atoms and marks of repetition -/

/-- The units read as one pattern, in a single round and whatever comes behind them. Groups take fuel for
what is in them. -/
structure IsAtom (ts : List Token) (r : Regex) : Prop where
  opens : Opens ts
  length_pos : 0 < ts.length
  reads : ∀ fuel leading acc (s : ReadState) rest, 3 * ts.length ≤ fuel + 1 →
    readSequence (fuel + 1) {} leading acc (s.at (ts ++ rest)) =
      readSequence fuel {} leading (⟨.other, r⟩ :: acc) (s.at rest)

/-- The units repeat the pattern before them, as often as possible first. -/
structure IsMark (ms : List Token) (least : Nat) (most : Option Nat) : Prop where
  length_pos : 0 < ms.length
  reads : ∀ fuel leading r acc (s : ReadState) rest, Opens rest →
    readSequence (fuel + 1) {} leading (⟨.other, r⟩ :: acc) (s.at (ms ++ rest)) =
      readSequence fuel {} leading (⟨.repetition, repeated r least most .greedy⟩ :: acc) (s.at rest)

theorem isAtom_plain (hc : c ∉ signs) : IsAtom [.plain c] (.one (.single c)) where
  opens := by
    intro t ht
    cases ht
    refine ⟨?_, ?_, by simp⟩
    · intro h
      cases h
      exact hc (by decide)
    · intro h
      cases h
      exact hc (by decide)
  length_pos := Nat.one_pos
  reads := fun _ _ _ _ _ _ => readSequence_plain hc

theorem isAtom_escaped (hc : c.isAlphanum = false) : IsAtom [.escaped c] (.one (.single c)) where
  opens := by
    intro t ht
    cases ht
    simp
  length_pos := Nat.one_pos
  reads := fun _ _ _ _ _ _ => readSequence_escaped hc

theorem isAtom_set {ranges : List (Char × Char)} (h : IsRanges ranges) : IsAtom (setTokens ranges)
    (.one ⟨ranges.map fun (a, b) => .range a.toNat b.toNat, false, .exact⟩) where
  opens := by
    intro t ht
    cases ht
    simp
  length_pos := Nat.succ_pos _
  reads := by
    intro fuel leading acc s rest _
    have htokens : setTokens ranges ++ rest =
        .plain '[' :: (ranges.flatMap rangeTokens ++ .plain ']' :: rest) := by simp [setTokens]
    have hstep : readSequence (fuel + 1) {} leading acc
        (s.at (.plain '[' :: (ranges.flatMap rangeTokens ++ .plain ']' :: rest))) =
          (readSet {} >>= fun set => readSequence fuel {} leading (⟨.other, .one set⟩ :: acc))
            (s.at (ranges.flatMap rangeTokens ++ .plain ']' :: rest)) := rfl
    rw [htokens, hstep, bind_eq_of_ok (readSet_ranges h)]

theorem repeatLast_greedy (h : Opens rest) :
    repeatLast {} (⟨.other, r⟩ :: acc) least most (s.at rest) =
      .ok (⟨.repetition, repeated r least most .greedy⟩ :: acc, s.at rest) := by
  have haccept : ∀ sign, (∀ t ∈ rest.head?, t ≠ .plain sign) →
      accept sign (s.at rest) = .ok (false, s.at rest) := by
    intro sign hsign
    rw [accept, bind_eq_of_ok (a := s.at rest) (t := s.at rest) rfl]
    dsimp only [ReadState.at]
    split
    · rename_i d more
      have hother : ¬ sign = d := fun h => hsign _ rfl (by rw [h])
      rw [if_neg hother]
      rfl
    · rfl
  have hgreed : readGreed (s.at rest) = .ok (.greedy, s.at rest) := by
    rw [readGreed, bind_eq_of_ok (haccept '?' fun t ht => (h t ht).1), if_neg (by decide),
      bind_eq_of_ok (haccept '+' fun t ht => (h t ht).2.1), if_neg (by decide)]
    rfl
  rw [repeatLast]
  dsimp only
  rw [if_neg (by decide), bind_eq_of_ok hgreed, if_neg (by decide)]
  rfl

theorem isMark_star : IsMark [.plain '*'] 0 none where
  length_pos := Nat.one_pos
  reads := by
    intro fuel leading r acc s rest h
    have hstep : readSequence (fuel + 1) {} leading (⟨.other, r⟩ :: acc) (s.at (.plain '*' :: rest)) =
        (repeatLast {} (⟨.other, r⟩ :: acc) 0 none >>= readSequence fuel {} leading) (s.at rest) := rfl
    rw [List.singleton_append, hstep, bind_eq_of_ok (repeatLast_greedy h)]

theorem isMark_plus : IsMark [.plain '+'] 1 none where
  length_pos := Nat.one_pos
  reads := by
    intro fuel leading r acc s rest h
    have hstep : readSequence (fuel + 1) {} leading (⟨.other, r⟩ :: acc) (s.at (.plain '+' :: rest)) =
        (repeatLast {} (⟨.other, r⟩ :: acc) 1 none >>= readSequence fuel {} leading) (s.at rest) := rfl
    rw [List.singleton_append, hstep, bind_eq_of_ok (repeatLast_greedy h)]

/-! ## Bounds of repetition -/

theorem takeWhile_cons {test : Char → Bool} {n : Nat} (hc : test c = true) :
    takeWhile test (n + 1) (s.at (.plain c :: ts)) =
      (takeWhile test n >>= fun more => pure (c :: more)) (s.at ts) := by
  rw [takeWhile, bind_eq_of_ok (a := s.at (.plain c :: ts)) (t := s.at (.plain c :: ts)) rfl]
  dsimp only [ReadState.at]
  rw [if_pos hc]
  rfl

theorem takeWhile_stop {test : Char → Bool} {n : Nat}
    (hts : ∀ c more, ts = .plain c :: more → test c = false) :
    takeWhile test n (s.at ts) = .ok ([], s.at ts) := by
  cases n with
  | zero => rfl
  | succ n =>
    rw [takeWhile, bind_eq_of_ok (a := s.at ts) (t := s.at ts) rfl]
    dsimp only [ReadState.at]
    split
    · rename_i d more
      rw [hts d more rfl]
      rfl
    · rfl

theorem takeWhile_digits {ds : List Char} (hds : ∀ d ∈ ds, d.isDigit = true)
    (hrest : ∀ c more, rest = .plain c :: more → c.isDigit = false) {n : Nat} (hn : ds.length ≤ n) :
    takeWhile Char.isDigit n (s.at (ds.map .plain ++ rest)) = .ok (ds, s.at rest) := by
  induction ds generalizing n with
  | nil => exact takeWhile_stop hrest
  | cons d ds ih =>
    obtain ⟨n, rfl⟩ : ∃ k, n = k + 1 := ⟨n - 1, by rw [List.length_cons] at hn; omega⟩
    obtain ⟨hd, hds⟩ := List.forall_mem_cons.mp hds
    have hmore := ih hds (Nat.le_of_succ_le_succ hn)
    rw [List.map_cons, List.cons_append, takeWhile_cons hd, bind_eq_of_ok hmore]
    rfl

/-- A number as it is written. -/
def numberTokens (n : Nat) : List Token := (Nat.toDigits 10 n).map .plain

theorem digitsValue_toDigits (n : Nat) : digitsValue 10 (Nat.toDigits 10 n) = n := by
  have hdigit : ∀ d : Char, d.isDigit = true →
      (Text.hexDigit? d.toLower).getD 0 = d.toNat - '0'.toNat := by
    intro d hd
    have hd : '0' ≤ d ∧ d ≤ '9' := by simpa [Char.isDigit, Char.le_def] using hd
    have hlower : d.toLower = d := by
      delta Char.toLower
      refine dif_neg ?_
      rintro ⟨hupper, -⟩
      have hupper : 'A' ≤ d := hupper
      exact absurd (Char.le_trans hupper hd.2) (by decide)
    rw [hlower, Text.hexDigit?, if_pos hd]
    rfl
  have hfold : ∀ (ds : List Char) (init : Nat), (∀ d ∈ ds, d.isDigit = true) →
      ds.foldl (fun n c => n * 10 + (Text.hexDigit? c.toLower).getD 0) init =
        Nat.ofDigitChars 10 ds init := by
    intro ds
    induction ds with
    | nil => exact fun _ _ => rfl
    | cons d ds ih =>
      intro init hds
      obtain ⟨hd, hds⟩ := List.forall_mem_cons.mp hds
      rw [List.foldl_cons, ih _ hds, Nat.ofDigitChars_cons, hdigit d hd, Nat.mul_comm]
  rw [digitsValue, hfold _ _ fun d hd => Nat.isDigit_of_mem_toDigits (by decide) (by decide) hd,
    Nat.ofDigitChars_ten_toDigits]

theorem count_toDigits {n : Nat} (hn : n < countLimit) :
    count (Nat.toDigits 10 n) s = .ok (n, s) := by
  rw [count, digitsValue_toDigits]
  dsimp only
  rw [if_neg (Nat.not_le_of_lt hn)]
  rfl

/-- Two bounds as they are written. -/
def boundsTokens (least most : Nat) : List Token :=
  .plain '\x7b' :: (numberTokens least ++ .plain ',' :: (numberTokens most ++ [.plain '\x7d']))

theorem readBounds_numbers {most : Nat} (hleast : least ≤ most) (hmost : most < countLimit)
    (hrest : Opens rest) :
    readBounds (s.at (numberTokens least ++ .plain ',' :: (numberTokens most ++ .plain '\x7d' :: rest))) =
      .ok (some (least, some most), s.at rest) := by
  have hdigits : ∀ (n all : Nat) (sign : Char) (more : List Token), sign.isDigit = false →
      (numberTokens n).length ≤ all →
        takeWhile Char.isDigit all (s.at (numberTokens n ++ .plain sign :: more)) =
          .ok (Nat.toDigits 10 n, s.at (.plain sign :: more)) := by
    intro n all sign more hsign hall
    refine takeWhile_digits (fun d hd => Nat.isDigit_of_mem_toDigits (by decide) (by decide) hd) ?_ ?_
    · intro c rest hc
      cases hc
      exact hsign
    · rwa [numberTokens, List.length_map] at hall
  have haccept : ∀ (sign : Char) (more : List Token),
      accept sign (s.at (.plain sign :: more)) = .ok (true, s.at more) := by
    intro sign more
    rw [accept, bind_eq_of_ok (a := s.at (.plain sign :: more)) (t := s.at (.plain sign :: more)) rfl]
    dsimp only [ReadState.at]
    rw [if_pos rfl]
    rfl
  have hpeek : peek (s.at rest) = .ok (rest.head?, s.at rest) := rfl
  have hnext : ¬ rest.head? = some .dangling := fun h => (hrest _ h).2.2 rfl
  have hsome : ∀ n : Nat, ¬ (Nat.toDigits 10 n).isEmpty = true := fun n h =>
    Nat.toDigits_ne_nil (List.isEmpty_iff.mp h)
  have hget : ∀ more : List Token, (get : Reader ReadState) (s.at more) = .ok (s.at more, s.at more) :=
    fun _ => rfl
  -- the units one after the other: a number, a comma, a number and the brace
  rw [readBounds, bind_eq_of_ok (hget _)]
  dsimp only
  rw [bind_eq_of_ok (hdigits least _ ',' _ rfl (by simp [ReadState.at])), bind_eq_of_ok (haccept ',' _),
    if_pos rfl, bind_eq_of_ok (hdigits most _ '\x7d' _ rfl (by simp [ReadState.at]; omega)),
    bind_eq_of_ok (haccept '\x7d' _), if_neg (by decide), bind_eq_of_ok hpeek, if_neg hnext,
    if_neg (hsome least), bind_eq_of_ok (count_toDigits (Nat.lt_of_le_of_lt hleast hmost)),
    if_neg (hsome most), bind_eq_of_ok (count_toDigits hmost), if_neg (Nat.not_lt_of_le hleast)]
  rfl

theorem isMark_bounds {most : Nat} (hleast : least ≤ most) (hmost : most < countLimit) :
    IsMark (boundsTokens least most) least (some most) where
  length_pos := Nat.succ_pos _
  reads := by
    intro fuel leading r acc s rest h
    let bounds : List Token :=
      numberTokens least ++ .plain ',' :: (numberTokens most ++ .plain '\x7d' :: rest)
    have htokens : boundsTokens least most ++ rest = .plain '\x7b' :: bounds := by
      simp [boundsTokens, bounds]
    -- a digit comes next, so the brace opens bounds
    have hnext : ¬ bounds.head? = some (.plain '\x7d') := by
      obtain ⟨d, ds, hds⟩ := List.exists_cons_of_ne_nil (Nat.toDigits_ne_nil (b := 10) (n := least))
      have hdigit : d.isDigit = true := Nat.isDigit_of_mem_toDigits (b := 10) (n := least) (by decide)
        (by decide) (by rw [hds]; exact List.mem_cons_self)
      have hhead : bounds.head? = some (.plain d) := by simp [bounds, numberTokens, hds]
      rw [hhead]
      intro heq
      cases heq
      cases hdigit
    have hpeek : peek (s.at bounds) = .ok (bounds.head?, s.at bounds) := rfl
    -- behind the bounds the last part is repeated
    obtain ⟨next, hstep, hbounds⟩ : ∃ next : Option (Nat × Option Nat) → Reader Regex,
        readSequence (fuel + 1) {} leading (⟨.other, r⟩ :: acc) (s.at (.plain '\x7b' :: bounds)) =
          (peek >>= fun t => if t = some (.plain '\x7d') then
              readSequence fuel {} leading (⟨.other, .one (.single '\x7b')⟩ :: ⟨.other, r⟩ :: acc)
            else readBounds >>= next) (s.at bounds) ∧
        next (some (least, some most)) = (repeatLast {} (⟨.other, r⟩ :: acc) least (some most) >>=
          readSequence fuel {} leading) := ⟨_, rfl, rfl⟩
    rw [htokens, hstep, bind_eq_of_ok hpeek, if_neg hnext,
      bind_eq_of_ok (readBounds_numbers hleast hmost h), hbounds]
    exact bind_eq_of_ok (repeatLast_greedy h)

/-! ## Parts one behind the other -/

/-- The units add the parts to a sequence, in a number of rounds that is not above their own. -/
structure ReadsAs (ts : List Token) (parts : List Part) : Prop where
  opens : Opens ts
  reads : ∃ rounds ≤ ts.length, ∀ fuel leading acc (s : ReadState) rest,
    3 * ts.length ≤ fuel + rounds → Opens rest →
    readSequence (fuel + rounds) {} leading acc (s.at (ts ++ rest)) =
      readSequence fuel {} leading (parts.reverse ++ acc) (s.at rest)

theorem readsAs_nil : ReadsAs [] [] where
  opens := fun t ht => by cases ht
  reads := ⟨0, Nat.le_refl 0, fun _ _ _ _ _ _ _ => rfl⟩

theorem ReadsAs.append (hts : ReadsAs ts ps) (hus : ReadsAs us qs) : ReadsAs (ts ++ us) (ps ++ qs) := by
  obtain ⟨n, hn, hfirst⟩ := hts.reads
  obtain ⟨m, hm, hsecond⟩ := hus.reads
  refine ⟨hts.opens.append hus.opens, n + m, ?_, fun fuel leading acc s rest hfuel hrest => ?_⟩
  · rw [List.length_append]
    exact Nat.add_le_add hn hm
  · rw [List.length_append] at hfuel
    have hrounds : fuel + (n + m) = fuel + m + n := by omega
    rw [hrounds, List.append_assoc, hfirst (fuel + m) leading acc s (us ++ rest) (by omega)
      (hus.opens.append hrest), hsecond fuel leading _ s rest (by omega) hrest, List.reverse_append,
      List.append_assoc]

theorem IsAtom.readsAs (h : IsAtom ts r) : ReadsAs ts [⟨.other, r⟩] where
  opens := h.opens
  reads := ⟨1, h.length_pos, fun fuel leading acc s rest hfuel _ => h.reads fuel leading acc s rest hfuel⟩

theorem readsAs_textStart : ReadsAs [.plain '^'] [⟨.condition, .anchor .textStart⟩] where
  opens := by
    intro t ht
    cases ht
    simp
  reads := ⟨1, Nat.le_refl 1, fun _ _ _ _ _ _ _ => rfl⟩

theorem readsAs_textEnd : ReadsAs [.plain '$'] [⟨.condition, .anchor .textEndOrLastBreak⟩] where
  opens := by
    intro t ht
    cases ht
    simp
  reads := ⟨1, Nat.le_refl 1, fun _ _ _ _ _ _ _ => rfl⟩

theorem IsAtom.repeat (hts : IsAtom ts r) (hms : IsMark ms least most) :
    ReadsAs (ts ++ ms) [⟨.repetition, repeated r least most .greedy⟩] where
  opens := by
    obtain ⟨t, ts, rfl⟩ := List.exists_cons_of_length_pos hts.length_pos
    exact hts.opens
  reads := by
    have hts' := hts.length_pos
    have hms' := hms.length_pos
    refine ⟨2, ?_, fun fuel leading acc s rest hfuel hrest => ?_⟩
    · rw [List.length_append]
      omega
    · rw [List.length_append] at hfuel
      rw [List.append_assoc, hts.reads (fuel + 1) leading acc s (ms ++ rest) (by omega),
        hms.reads fuel leading r acc s rest hrest]
      rfl

theorem readSequence_of_readsAs (h : ReadsAs ts parts) (hfuel : 3 * ts.length + 1 ≤ fuel)
    (hrest : Ends rest) : readSequence fuel {} leading [] (s.at (ts ++ rest)) =
      .ok (joinParts parts.reverse, s.at rest) := by
  obtain ⟨n, hn, hreads⟩ := h.reads
  obtain ⟨k, rfl⟩ : ∃ k, fuel = k + 1 + n := ⟨fuel - 1 - n, by omega⟩
  rw [hreads (k + 1) leading [] s rest (by omega) hrest.opens, List.append_nil, readSequence_end hrest]

/-! ## Alternatives and groups -/

theorem readAlternatives_one (h : ReadsAs ts parts) (hfuel : 3 * ts.length + 1 ≤ fuel)
    (hrest : ∀ t ∈ rest.head?, t = .plain ')') :
    readAlternatives (fuel + 1) {} top first (s.at (ts ++ rest)) =
      .ok (joinParts parts.reverse, s.at rest) := by
  have hends : Ends rest := fun t ht => Or.inr (hrest t ht)
  have hbar : accept '|' (s.at rest) = .ok (false, s.at rest) := by
    cases rest with
    | nil => rfl
    | cons t rest =>
      rw [hrest t rfl]
      rfl
  rw [readAlternatives, bind_eq_of_ok (readSequence_of_readsAs h hfuel hends), bind_eq_of_ok hbar,
    if_neg (by decide)]
  rfl

theorem readAlternatives_two (hts : ReadsAs ts ps) (hus : ReadsAs us qs)
    (hfuel : 3 * (ts.length + us.length) + 1 ≤ fuel) (hrest : ∀ t ∈ rest.head?, t = .plain ')') :
    readAlternatives (fuel + 2) {} false first (s.at (ts ++ .plain '|' :: (us ++ rest))) =
      .ok (.alt (joinParts ps.reverse) (joinParts qs.reverse), s.at rest) := by
  have hends : Ends (.plain '|' :: (us ++ rest)) := fun t ht => Or.inl (Option.mem_some.mp ht).symm
  have hbar : accept '|' (s.at (.plain '|' :: (us ++ rest))) = .ok (true, s.at (us ++ rest)) := rfl
  have hget : (get : Reader ReadState) (s.at (us ++ rest)) =
      .ok (s.at (us ++ rest), s.at (us ++ rest)) := rfl
  rw [readAlternatives, bind_eq_of_ok (readSequence_of_readsAs hts (by omega) hends), bind_eq_of_ok hbar,
    if_pos rfl, bind_eq_of_ok hget]
  exact bind_eq_of_ok (readAlternatives_one hus (show 3 * us.length + 1 ≤ fuel by omega) hrest)

/-- A pattern that a group gives becomes a part. -/
theorem readSequence_of_readGroup (h : readGroup fuel {} leading acc (s.at ts) =
      .ok (.inr (some r), s.at rest)) :
    readSequence (fuel + 1) {} leading acc (s.at (.plain '(' :: ts)) =
      readSequence fuel {} leading (⟨.other, r⟩ :: acc) (s.at rest) := by
  have hpeek : peek (s.at (.plain '(' :: ts)) = .ok (some (.plain '('), s.at (.plain '(' :: ts)) := rfl
  have htake : take (s.at (.plain '(' :: ts)) = .ok (some (.plain '('), s.at ts) := rfl
  rw [readSequence, bind_eq_of_ok hpeek]
  refine (bind_eq_of_ok htake).trans ?_
  refine (bind_eq_of_ok h).trans ?_
  rfl

/-- A group that captures nothing. -/
theorem readSequence_group (h : readAlternatives fuel {} false false (s.at ts) =
      .ok (r, s.at (.plain ')' :: rest))) :
    readSequence (fuel + 2) {} leading acc (s.at (.plain '(' :: .plain '?' :: .plain ':' :: ts)) =
      readSequence (fuel + 1) {} leading (⟨.other, r⟩ :: acc) (s.at rest) := by
  have hbody : (readAlternatives fuel {} false false >>= fun r =>
      accept ')' >>= fun closed => if !closed then refuse else pure r) (s.at ts) = .ok (r, s.at rest) := by
    rw [bind_eq_of_ok h]
    rfl
  have hstep : readGroup (fuel + 1) {} leading acc (s.at (.plain '?' :: .plain ':' :: ts)) =
      ((readAlternatives fuel {} false false >>= fun r =>
        accept ')' >>= fun closed => if !closed then refuse else pure r) >>= fun r =>
          pure (.inr (some r))) (s.at ts) := rfl
  have hgroup : readGroup (fuel + 1) {} leading acc (s.at (.plain '?' :: .plain ':' :: ts)) =
      .ok (.inr (some r), s.at rest) := by
    rw [hstep, bind_eq_of_ok hbody]
    rfl
  exact readSequence_of_readGroup hgroup

/-- A group around the given units. -/
def groupTokens (ts : List Token) : List Token :=
  .plain '(' :: .plain '?' :: .plain ':' :: (ts ++ [.plain ')'])

theorem isAtom_group_of_reads (h : ∀ fuel (s : ReadState) rest, 3 * ts.length + 2 ≤ fuel →
      readAlternatives (fuel + 1) {} false false (s.at (ts ++ .plain ')' :: rest)) =
        .ok (r, s.at (.plain ')' :: rest))) : IsAtom (groupTokens ts) r where
  opens := by
    intro t ht
    cases ht
    simp
  length_pos := Nat.succ_pos _
  reads := by
    intro fuel leading acc s rest hfuel
    have htokens : groupTokens ts ++ rest =
        .plain '(' :: .plain '?' :: .plain ':' :: (ts ++ .plain ')' :: rest) := by simp [groupTokens]
    have hlength : (groupTokens ts).length = ts.length + 4 := by simp [groupTokens]
    obtain ⟨k, rfl⟩ : ∃ k, fuel = k + 2 := ⟨fuel - 2, by omega⟩
    rw [htokens, readSequence_group (h k s rest (by omega))]

theorem ReadsAs.isAtom_group (h : ReadsAs ts parts) :
    IsAtom (groupTokens ts) (joinParts parts.reverse) :=
  isAtom_group_of_reads fun _ _ _ hfuel =>
    readAlternatives_one h (by omega) fun _ ht => (Option.mem_some.mp ht).symm

theorem ReadsAs.isAtom_either (hts : ReadsAs ts ps) (hus : ReadsAs us qs) :
    IsAtom (groupTokens (ts ++ .plain '|' :: us))
      (.alt (joinParts ps.reverse) (joinParts qs.reverse)) := by
  refine isAtom_group_of_reads fun fuel s rest hfuel => ?_
  rw [List.length_append, List.length_cons] at hfuel
  obtain ⟨k, rfl⟩ : ∃ k, fuel = k + 1 := ⟨fuel - 1, by omega⟩
  rw [List.append_assoc, List.cons_append]
  exact readAlternatives_two hts hus (by omega) fun _ ht => (Option.mem_some.mp ht).symm

/-! ## Units of a text -/

/-- The text is cut into these units, whatever comes behind it. -/
def CutsInto (text : List Char) (ts : List Token) : Prop :=
  ∀ more, readTokens (text ++ more) = ts ++ readTokens more

theorem cutsInto_nil : CutsInto [] [] := fun _ => rfl

theorem CutsInto.append {text next : List Char} (h : CutsInto text ts) (hnext : CutsInto next us) :
    CutsInto (text ++ next) (ts ++ us) := by
  intro more
  rw [List.append_assoc, h, hnext, List.append_assoc]

theorem cutsInto_plain (text : List Char) (h : '\\' ∉ text) : CutsInto text (text.map .plain) := by
  intro more
  induction text with
  | nil => rfl
  | cons c text ih =>
    rw [List.mem_cons, not_or] at h
    rw [List.cons_append, readTokens, ih h.2, List.map_cons, List.cons_append]
    · exact fun hc => absurd hc.symm h.1
    · exact fun _ _ hc => absurd hc.symm h.1

theorem cutsInto_escaped (c : Char) : CutsInto ['\\', c] [.escaped c] := by
  intro more
  rfl

/-! ## Whole patterns -/

/-- A text of units that read as parts is a pattern of these parts in sequence. -/
theorem read_of_readsAs {text : List Char} (hcut : CutsInto text ts) (h : ReadsAs ts parts) :
    read text = .ok (joinParts parts.reverse) := by
  have htokens : readTokens text = ts := by
    have hmore := hcut []
    rwa [List.append_nil, readTokens, List.append_nil] at hmore
  have halternatives : readAlternatives (3 * ts.length + 4) {} true true { tokens := ts, flags := {} } =
      .ok (joinParts parts.reverse, { tokens := [], flags := {} }) := by
    let s : ReadState := { tokens := ts, flags := {} }
    have hfuel : 3 * ts.length + 1 ≤ 3 * ts.length + 3 := by omega
    have hone : readAlternatives (3 * ts.length + 4) {} true true (s.at (ts ++ [])) =
        .ok (joinParts parts.reverse, s.at []) :=
      readAlternatives_one h hfuel fun _ ht => by cases ht
    rwa [List.append_nil] at hone
  rw [read, readWith, htokens]
  dsimp only
  rw [StateT.run, halternatives]
  rfl

/-- Parts run one after the other. -/
def runParts : List Part → Step
  | [], s, k => k s
  | p :: ps, s, k => run p.regex s fun t => runParts ps t k

theorem runParts_append (ps qs : List Part) (s : Cursor) (k : Cursor → Option Cursor) :
    runParts (ps ++ qs) s k = runParts ps s fun t => runParts qs t k := by
  induction ps generalizing s with
  | nil => rfl
  | cons p ps ih =>
    rw [List.cons_append, runParts, runParts]
    exact congrArg (run p.regex s) (funext fun t => ih t)

theorem run_joinParts (parts : List Part) (s : Cursor) (k : Cursor → Option Cursor) :
    run (joinParts parts.reverse) s k = runParts parts s k := by
  -- the parts that are joined in front of a pattern
  have hfoldl : ∀ (acc : List Part) (r : Regex) s k,
      run (acc.foldl (fun r q => .seq q.regex r) r) s k = runParts acc.reverse s fun t => run r t k := by
    intro acc
    induction acc with
    | nil => exact fun _ _ _ => rfl
    | cons q acc ih =>
      intro r s k
      rw [List.foldl_cons, ih, List.reverse_cons, runParts_append]
      rfl
  obtain ⟨acc, rfl⟩ : ∃ acc, parts = acc.reverse := ⟨parts.reverse, (List.reverse_reverse _).symm⟩
  rw [List.reverse_reverse]
  cases acc with
  | nil => rfl
  | cons p acc =>
    rw [joinParts, hfoldl, List.reverse_cons, runParts_append]
    rfl

/-- Two parts or more are joined into a sequence, so a mark behind them repeats them in a loop. -/
theorem repeated_joinParts (h : 2 ≤ parts.length) : repeated (joinParts parts.reverse) least most .greedy =
    .loop (joinParts parts.reverse) least most .greedy := by
  have hseq : ∀ (acc : List Part) (a b : Regex),
      ∃ x y, acc.foldl (fun r q => Regex.seq q.regex r) (.seq a b) = .seq x y := by
    intro acc
    induction acc with
    | nil => exact fun a b => ⟨a, b, rfl⟩
    | cons q acc ih => exact fun a b => ih q.regex (.seq a b)
  have hlength : 2 ≤ parts.reverse.length := by rwa [List.length_reverse]
  match parts.reverse, hlength with
  | p :: q :: acc, _ =>
    obtain ⟨x, y, hxy⟩ := hseq acc q.regex p.regex
    have hjoin : joinParts (p :: q :: acc) = .seq x y := hxy
    rw [hjoin]
    rfl

/-- Patterns that run alike match the same texts. -/
theorem matchesIn_congr {a b : Regex} (h : ∀ s k, run a s k = run b s k) (text : List Char) :
    matchesIn a text = matchesIn b text := by
  have hfind : ∀ nonempty before rest pos,
      findFrom a nonempty before rest pos = findFrom b nonempty before rest pos := by
    intro nonempty before rest pos
    induction rest generalizing nonempty before pos with
    | nil => rw [findFrom, findFrom, h]
    | cons c rest ih =>
      rw [findFrom, findFrom, h]
      split
      · rfl
      · exact ih _ _ _
  rw [matchesIn, matchesIn, find?, find?, hfind]

end BlockMarkup.Regex
