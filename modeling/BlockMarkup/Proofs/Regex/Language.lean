import Mathlib.Computability.Language
import BlockMarkup.Proofs.Regex.Preferred

/-! # The language of a pattern

A pattern of sets, runs, sequences, alternatives and loops consumes the texts of a language
(`language`). The search tries its ways one by one, and no way is missed: it succeeds if and only if
the text begins with a part of the language behind which the continuation succeeds
(`recognizes_run`). Whether a pattern matches a whole text is then a question about its language
(`matchesIn_whole_iff`).
-/

namespace BlockMarkup.Regex

open Cursor (spot)

variable {a b r : Regex} {set : CharSet} {least : Nat} {most : Option Nat}
variable {before s : List Char} {groups : List (Nat × Capture)} {k : Cursor → Option Cursor}

/-- The texts that a pattern consumes; there are none for the patterns that look around or back. -/
def language : Regex → Language Char
  | .empty => 1
  | .one set => {cs | ∃ c, set.contains c = true ∧ cs = [c]}
  | .span set least most _ =>
    {cs | (∀ c ∈ cs, set.contains c = true) ∧ least ≤ cs.length ∧ most.all (cs.length ≤ ·) = true}
  | .seq a b => a.language * b.language
  | .alt a b => a.language + b.language
  | .loop r least most _ =>
    {cs | ∃ n, least ≤ n ∧ most.all (n ≤ ·) = true ∧ cs ∈ r.language ^ n}
  | .anchor _ | .group .. | .backref .. | .look .. | .atomic _ | .ifGroup .. => 0

/-- The pattern consists of sets, runs, sequences, alternatives and loops, and every round of a loop
consumes something. -/
def IsRegular : Regex → Prop
  | .empty | .one _ => True
  | .span _ _ _ greed => greed ≠ .possessive
  | .seq a b | .alt a b => IsRegular a ∧ IsRegular b
  | .loop r least most greed =>
    IsRegular r ∧ [] ∉ r.language ∧ most.all (least ≤ ·) = true ∧ greed = .greedy
  | .anchor _ | .group .. | .backref .. | .look .. | .atomic _ | .ifGroup .. => False

theorem isRegular_many (set : CharSet) : (Regex.many set).IsRegular := fun h => by cases h

theorem isRegular_many1 (set : CharSet) : (Regex.many1 set).IsRegular := fun h => by cases h

theorem isRegular_chars : ∀ t : List Char, (Regex.chars t).IsRegular
  | [] => trivial
  | [_] => trivial
  | _ :: d :: t => ⟨trivial, isRegular_chars (d :: t)⟩

section Membership

variable {cs : List Char}

theorem mem_language_one : cs ∈ (Regex.one set).language ↔ ∃ c, set.contains c = true ∧ cs = [c] :=
  Iff.rfl

theorem mem_language_many :
    cs ∈ (Regex.many set).language ↔ ∀ c ∈ cs, set.contains c = true := by
  constructor
  · exact fun h => h.1
  · exact fun h => ⟨h, Nat.zero_le _, rfl⟩

theorem mem_language_many1 :
    cs ∈ (Regex.many1 set).language ↔ cs ≠ [] ∧ ∀ c ∈ cs, set.contains c = true := by
  constructor
  · rintro ⟨hset, hleast, -⟩
    exact ⟨List.ne_nil_of_length_pos hleast, hset⟩
  · exact fun h => ⟨h.2, List.length_pos_iff.mpr h.1, rfl⟩

theorem mem_language_seq :
    cs ∈ (Regex.seq a b).language ↔ ∃ x ∈ a.language, ∃ y ∈ b.language, x ++ y = cs :=
  Language.mem_mul

theorem mem_language_alt :
    cs ∈ (Regex.alt a b).language ↔ cs ∈ a.language ∨ cs ∈ b.language :=
  Language.mem_add _ _ _

theorem mem_language_loop {greed : Greed} : cs ∈ (Regex.loop r least most greed).language ↔
    ∃ parts : List (List Char), cs = parts.flatten ∧ least ≤ parts.length ∧
      most.all (parts.length ≤ ·) = true ∧ ∀ p ∈ parts, p ∈ r.language := by
  constructor
  · rintro ⟨n, hleast, hmost, hn⟩
    obtain ⟨parts, hcs, rfl, hparts⟩ := Language.mem_pow.mp hn
    exact ⟨parts, hcs, hleast, hmost, hparts⟩
  · rintro ⟨parts, hcs, hleast, hmost, hparts⟩
    exact ⟨parts.length, hleast, hmost, Language.mem_pow.mpr ⟨parts, hcs, rfl, hparts⟩⟩

theorem mem_language_chars (t : List Char) : cs ∈ (Regex.chars t).language ↔ cs = t := by
  induction t generalizing cs with
  | nil => exact Language.mem_one cs
  | cons c t ih =>
    have hone : ∀ x, x ∈ (Regex.one (.single c)).language ↔ x = [c] := by
      intro x
      simp [mem_language_one, CharSet.contains_single]
    cases t with
    | nil => exact hone cs
    | cons d t =>
      have hseq : (Regex.chars (c :: d :: t)).language =
          (Regex.seq (.one (.single c)) (Regex.chars (d :: t))).language := rfl
      rw [hseq, mem_language_seq]
      constructor
      · rintro ⟨x, hx, y, hy, rfl⟩
        rw [(hone x).mp hx, ih.mp hy]
        rfl
      · rintro rfl
        exact ⟨[c], (hone _).mpr rfl, d :: t, ih.mpr rfl, rfl⟩

end Membership

/-! ## Recognition -/

/-- The text begins with a part of the language behind which the continuation succeeds. -/
def Leads (L : Language Char) (before s : List Char) (groups : List (Nat × Capture))
    (k : Cursor → Option Cursor) : Prop :=
  ∃ cs ∈ L, ∃ rest, s = cs ++ rest ∧ (k (spot (cs.reverse ++ before) rest groups)).isSome = true

/-- The step succeeds if and only if the text begins with a part of the language behind which it can
go on. -/
def Recognizes (step : Step) (L : Language Char) : Prop :=
  ∀ before s groups k, (step (spot before s groups) k).isSome = true ↔
    ∃ cs ∈ L, ∃ rest, s = cs ++ rest ∧ (k (spot (cs.reverse ++ before) rest groups)).isSome = true

theorem recognizes_empty : Recognizes (run .empty) 1 := by
  intro before s groups k
  constructor
  · exact fun h => ⟨[], Language.nil_mem_one, s, rfl, h⟩
  · rintro ⟨cs, hcs, rest, rfl, hk⟩
    rw [Language.mem_one] at hcs
    subst hcs
    exact hk

theorem recognizes_one (set : CharSet) : Recognizes (run (.one set)) (Regex.one set).language := by
  intro before s groups k
  cases s with
  | nil =>
    rw [run_one_nil rfl]
    constructor
    · intro h
      cases h
    · rintro ⟨cs, ⟨c, -, rfl⟩, rest, hcs, -⟩
      cases hcs
  | cons c s =>
    rw [run_one_cons rfl]
    constructor
    · intro h
      split at h
      · rename_i hc
        exact ⟨[c], ⟨c, hc, rfl⟩, s, rfl, h⟩
      · cases h
    · rintro ⟨cs, ⟨d, hd, rfl⟩, rest, hcs, hk⟩
      cases hcs
      rw [if_pos hd]
      exact hk

theorem recognizes_span {greed : Greed} (h : greed ≠ .possessive) :
    Recognizes (run (.span set least most greed)) (Regex.span set least most greed).language := by
  intro before s groups k
  have hstops : ∀ u, u ∈ spanStops set least most greed (spot before s groups) ↔
      u ∈ (stops set most before s before.length groups).drop least := by
    intro u
    cases greed with
    | greedy => exact List.mem_reverse
    | lazy => exact Iff.rfl
    | possessive => exact absurd rfl h
  have hspot : ∀ cs rest : List Char, spot (cs.reverse ++ before) rest groups =
      ⟨cs.reverse ++ before, rest, before.length + cs.length, groups⟩ := by
    intro cs rest
    rw [spot, List.length_append, List.length_reverse, Nat.add_comm]
  rw [run_span, List.findSome?_isSome_iff]
  constructor
  · rintro ⟨u, hu, hk⟩
    obtain ⟨cs, rest, rfl, hcs, hleast, hmost, rfl⟩ := mem_drop_stops_iff.mp ((hstops u).mp hu)
    exact ⟨cs, ⟨hcs, hleast, hmost⟩, rest, rfl, by rwa [hspot]⟩
  · rintro ⟨cs, ⟨hcs, hleast, hmost⟩, rest, rfl, hk⟩
    exact ⟨_, (hstops _).mpr (mem_drop_stops_iff.mpr ⟨cs, rest, rfl, hcs, hleast, hmost, rfl⟩),
      by rwa [hspot] at hk⟩

/-- Two languages one behind the other, the second one of what the continuation accepts. -/
theorem Recognizes.isSome_iff {step : Step} {L M : Language Char} {next : Cursor → Option Cursor}
    (h : Recognizes step L)
    (hnext : ∀ x ∈ L, ∀ rest, s = x ++ rest →
      ((next (spot (x.reverse ++ before) rest groups)).isSome = true ↔
        Leads M (x.reverse ++ before) rest groups k)) :
    (step (spot before s groups) next).isSome = true ↔ Leads (L * M) before s groups k := by
  rw [h]
  constructor
  · rintro ⟨x, hx, rest, hs, hrest⟩
    obtain ⟨y, hy, rest', rfl, hk⟩ := (hnext x hx rest hs).mp hrest
    refine ⟨x ++ y, Language.append_mem_mul hx hy, rest', by rw [hs, List.append_assoc], ?_⟩
    rwa [List.reverse_append, List.append_assoc]
  · rintro ⟨cs, hcs, rest, hs, hk⟩
    obtain ⟨x, hx, y, hy, rfl⟩ := Language.mem_mul.mp hcs
    rw [List.append_assoc] at hs
    refine ⟨x, hx, y ++ rest, hs, (hnext x hx _ hs).mpr ⟨y, hy, rest, rfl, ?_⟩⟩
    rwa [List.reverse_append, List.append_assoc] at hk

theorem Recognizes.seq {L M : Language Char} (ha : Recognizes (run a) L)
    (hb : Recognizes (run b) M) : Recognizes (run (.seq a b)) (L * M) := by
  intro before s groups k
  rw [run_seq]
  exact ha.isSome_iff fun x _ rest _ => hb _ _ _ _

theorem Recognizes.alt {L M : Language Char} (ha : Recognizes (run a) L)
    (hb : Recognizes (run b) M) : Recognizes (run (.alt a b)) (L + M) := by
  intro before s groups k
  rw [run_alt, Option.isSome_or, Bool.or_eq_true, ha, hb]
  constructor
  · rintro (⟨cs, hcs, hrest⟩ | ⟨cs, hcs, hrest⟩)
    · exact ⟨cs, Or.inl hcs, hrest⟩
    · exact ⟨cs, Or.inr hcs, hrest⟩
  · rintro ⟨cs, hcs | hcs, hrest⟩
    · exact Or.inl ⟨cs, hcs, hrest⟩
    · exact Or.inr ⟨cs, hcs, hrest⟩

/-! ## Loops -/

section Loop

variable {step : Step} {L : Language Char}

/-- What rounds of a loop consume: so many that, with those before, neither bound is missed. -/
def rounds (L : Language Char) (least : Nat) (most : Option Nat) (count : Nat) : Language Char :=
  {cs | ∃ n, least ≤ count + n ∧ most.all (count + n ≤ ·) = true ∧ cs ∈ L ^ n}

/-- Either the loop ends here, or there is one more round. -/
theorem mem_rounds_iff {count : Nat} {cs : List Char} :
    cs ∈ rounds L least most count ↔
      (least ≤ count ∧ most.all (count ≤ ·) = true ∧ cs = []) ∨
        cs ∈ L * rounds L least most (count + 1) := by
  constructor
  · rintro ⟨n, hleast, hmost, hn⟩
    cases n with
    | zero =>
      rw [pow_zero, Language.mem_one] at hn
      exact Or.inl ⟨hleast, hmost, hn⟩
    | succ n =>
      rw [pow_succ', Language.mem_mul] at hn
      obtain ⟨x, hx, y, hy, rfl⟩ := hn
      have hcount : count + (n + 1) = count + 1 + n := by omega
      rw [hcount] at hleast hmost
      exact Or.inr (Language.append_mem_mul hx ⟨n, hleast, hmost, hy⟩)
  · rintro (⟨hleast, hmost, rfl⟩ | hcs)
    · exact ⟨0, hleast, hmost, Language.nil_mem_one⟩
    · obtain ⟨x, hx, y, ⟨n, hleast, hmost, hy⟩, rfl⟩ := Language.mem_mul.mp hcs
      have hcount : count + 1 + n = count + (n + 1) := by omega
      rw [hcount] at hleast hmost
      refine ⟨n + 1, hleast, hmost, ?_⟩
      rw [pow_succ']
      exact Language.append_mem_mul hx hy

theorem all_le_of_le {m n : Nat} (h : most.all (n ≤ ·) = true) (hle : m ≤ n) :
    most.all (m ≤ ·) = true := by
  cases most with
  | none => rfl
  | some bound =>
    rw [Option.all_some, decide_eq_true_eq] at h ⊢
    exact Nat.le_trans hle h

/-- Beyond the upper bound there is no round. -/
theorem not_mem_rounds {count : Nat} {cs : List Char} (h : ¬ most.all (count ≤ ·) = true) :
    cs ∉ rounds L least most count := by
  rintro ⟨n, -, hmost, -⟩
  exact h (all_le_of_le hmost (Nat.le_add_right count n))

theorem leads_rounds_iff {count : Nat} (hcount : most.all (count ≤ ·) = true) :
    Leads (rounds L least most count) before s groups k ↔
      (least ≤ count ∧ (k (spot before s groups)).isSome = true) ∨
        Leads (L * rounds L least most (count + 1)) before s groups k := by
  constructor
  · rintro ⟨cs, hcs, rest, rfl, hk⟩
    rcases mem_rounds_iff.mp hcs with ⟨hleast, -, rfl⟩ | hcs
    · exact Or.inl ⟨hleast, hk⟩
    · exact Or.inr ⟨cs, hcs, rest, rfl, hk⟩
  · rintro (⟨hleast, hk⟩ | ⟨cs, hcs, hrest⟩)
    · exact ⟨[], mem_rounds_iff.mpr (Or.inl ⟨hleast, hcount, rfl⟩), s, rfl, hk⟩
    · exact ⟨cs, mem_rounds_iff.mpr (Or.inr hcs), hrest⟩

/-- Below the lower bound there is one more round. -/
theorem leads_rounds_iff_of_lt {count : Nat} (hcount : most.all (count ≤ ·) = true)
    (hless : count < least) : Leads (rounds L least most count) before s groups k ↔
      Leads (L * rounds L least most (count + 1)) before s groups k := by
  rw [leads_rounds_iff hcount]
  exact ⟨fun h => h.resolve_left fun h => absurd h.1 (Nat.not_le_of_lt hless), Or.inr⟩

/-- At the upper bound the loop ends. -/
theorem leads_rounds_iff_of_bound {count : Nat} (hcount : most.all (count ≤ ·) = true)
    (hleast : least ≤ count) (hbound : ¬ most.all (count + 1 ≤ ·) = true) :
    Leads (rounds L least most count) before s groups k ↔
      (k (spot before s groups)).isSome = true := by
  rw [leads_rounds_iff hcount]
  constructor
  · rintro (⟨-, h⟩ | ⟨cs, hcs, -⟩)
    · exact h
    · obtain ⟨x, -, y, hy, -⟩ := Language.mem_mul.mp hcs
      exact absurd hy (not_mem_rounds hbound)
  · exact fun h => Or.inl ⟨hleast, h⟩

/-- A round consumes something, so that fuel for every character left is enough and no round is
taken for one that has consumed nothing. -/
theorem isSome_iterateGreedy_iff (hstep : Recognizes step L) (hnil : [] ∉ L)
    (hbounds : most.all (least ≤ ·) = true) {fuel count : Nat} {last : Option Nat}
    (hfuel : s.length < fuel) (hcount : most.all (count ≤ ·) = true)
    (hlast : ∀ p, last = some p → p < before.length) :
    (iterateGreedy step least most fuel count last (spot before s groups) k).isSome = true ↔
      Leads (rounds L least most count) before s groups k := by
  induction fuel generalizing before s count last with
  | zero => omega
  | succ fuel ih =>
    -- one more round and those after it
    have hround : ∀ last : Option Nat, (∀ p, last = some p → p ≤ before.length) →
        most.all (count + 1 ≤ ·) = true →
        ((step (spot before s groups) fun t =>
          iterateGreedy step least most fuel (count + 1) last t k).isSome = true ↔
            Leads (L * rounds L least most (count + 1)) before s groups k) := by
      intro last hlast hcount
      refine hstep.isSome_iff ?_
      rintro x hx rest rfl
      have hpos : 0 < x.length := List.length_pos_iff.mpr fun h => hnil (h ▸ hx)
      rw [List.length_append] at hfuel
      refine ih (by omega) hcount fun p hp => ?_
      have hle := hlast p hp
      rw [List.length_append, List.length_reverse]
      omega
    rw [iterateGreedy]
    split
    · rename_i hless
      have hmore : most.all (count + 1 ≤ ·) = true := all_le_of_le hbounds hless
      rw [leads_rounds_iff_of_lt hcount hless]
      exact hround last (fun p hp => Nat.le_of_lt (hlast p hp)) hmore
    · rename_i henough
      have hleast : least ≤ count := Nat.le_of_not_lt henough
      split
      · rename_i hgoes
        rw [Bool.and_eq_true] at hgoes
        have hthis := hround (some before.length) (fun p hp => by cases hp; exact Nat.le_refl _) hgoes.1
        have hpos : (spot before s groups).pos = before.length := rfl
        rw [leads_rounds_iff hcount, hpos, ← hthis]
        cases hfirst : step (spot before s groups) fun t =>
            iterateGreedy step least most fuel (count + 1) (some before.length) t k with
        | none => simp [hleast]
        | some t => simp
      · rename_i hstops
        -- the last round is not where this one is, so it is the bound that ends the loop
        refine (leads_rounds_iff_of_bound hcount hleast fun hmore => hstops ?_).symm
        rw [Bool.and_eq_true, bne_iff_ne]
        exact ⟨hmore, fun hlast' => absurd (hlast _ hlast') (Nat.lt_irrefl _)⟩

theorem recognizes_loop (h : Recognizes (run r) r.language) (hnil : [] ∉ r.language)
    (hbounds : most.all (least ≤ ·) = true) :
    Recognizes (run (.loop r least most .greedy)) (Regex.loop r least most .greedy).language := by
  intro before s groups k
  have hrounds : rounds r.language least most 0 = (Regex.loop r least most .greedy).language := by
    ext cs
    constructor
    · rintro ⟨n, hleast, hmost, hn⟩
      rw [Nat.zero_add] at hleast hmost
      exact ⟨n, hleast, hmost, hn⟩
    · rintro ⟨n, hleast, hmost, hn⟩
      refine ⟨n, ?_, ?_, hn⟩
      · rwa [Nat.zero_add]
      · rwa [Nat.zero_add]
  have hfuel : s.length < least + 2 * (spot before s groups).after.length + 2 := by
    have hafter : (spot before s groups).after = s := rfl
    rw [hafter]
    omega
  have hzero : most.all (0 ≤ ·) = true := by cases most <;> simp
  rw [← hrounds]
  exact isSome_iterateGreedy_iff h hnil hbounds hfuel hzero fun p hp => by cases hp

end Loop

/-! ## Whole texts -/

/-- A pattern finds a way through a text if there is one. -/
theorem recognizes_run (h : IsRegular r) : Recognizes (run r) r.language := by
  induction r with
  | empty => exact recognizes_empty
  | one set => exact recognizes_one set
  | span set least most greed => exact recognizes_span h
  | seq a b iha ihb => exact (iha h.1).seq (ihb h.2)
  | alt a b iha ihb => exact (iha h.1).alt (ihb h.2)
  | loop r least most greed ih =>
    obtain ⟨hr, hnil, hbounds, rfl⟩ := h
    exact recognizes_loop (ih hr) hnil hbounds
  | anchor _ | group _ _ _ | backref _ _ | look _ _ _ _ | atomic _ _ | ifGroup _ _ _ _ _ => cases h

theorem matchesIn_of_run {t : Cursor} (h : run r (spot [] s []) some = some t) :
    matchesIn r s = true := by
  have hsilent : Silent r [] [] s := silent_nil
  have hfound : findFrom r false [] s 0 = some ⟨spot [] s [], t⟩ := findFrom_eq hsilent h
  rw [matchesIn, find?, hfound]
  rfl

/-- A pattern that is tied to the start of a text is tried nowhere else. -/
theorem matchesIn_textStart_iff : matchesIn (.seq (.seq (.anchor .textStart) a) b) s = true ↔
    (run a (spot [] s []) fun t => run b t some).isSome = true := by
  constructor
  · intro hmatches
    obtain ⟨p, q, rfl, t, ht⟩ := exists_run_of_matchesIn hmatches
    have hanchor : run (.seq (.seq (.anchor .textStart) a) b) (spot p.reverse q []) some =
        if anchorHolds .textStart (spot p.reverse q []) then
          run a (spot p.reverse q []) fun t => run b t some
        else none := rfl
    rw [hanchor] at ht
    split at ht
    · rename_i hp
      obtain rfl : p = [] := by simpa [anchorHolds, spot] using hp
      exact Option.isSome_iff_exists.mpr ⟨t, ht⟩
    · cases ht
  · intro hsome
    obtain ⟨t, ht⟩ := Option.isSome_iff_exists.mp hsome
    exact matchesIn_of_run ht

/-- A pattern that is tied to the start and to the end of a text matches if the text is in its
language, but for a line break at the end. -/
theorem matchesIn_whole_iff (h : IsRegular r) :
    matchesIn (.seq (.seq (.anchor .textStart) r) (.anchor .textEndOrLastBreak)) s = true ↔
      s ∈ r.language ∨ ∃ cs ∈ r.language, s = cs ++ ['\n'] := by
  have hends : ∀ before rest, (run (.anchor .textEndOrLastBreak) (spot before rest [])
      some).isSome = true ↔ rest = [] ∨ rest = ['\n'] := by
    intro before rest
    rw [run_anchor]
    simp [anchorHolds, spot]
  rw [matchesIn_textStart_iff, recognizes_run h]
  simp only [hends]
  constructor
  · rintro ⟨cs, hcs, rest, rfl, rfl | rfl⟩
    · rw [List.append_nil]
      exact Or.inl hcs
    · exact Or.inr ⟨cs, hcs, rfl⟩
  · rintro (hs | ⟨cs, hcs, rfl⟩)
    · exact ⟨s, hs, [], (List.append_nil s).symm, Or.inl rfl⟩
    · exact ⟨cs, hcs, ['\n'], rfl, Or.inr rfl⟩

end BlockMarkup.Regex
