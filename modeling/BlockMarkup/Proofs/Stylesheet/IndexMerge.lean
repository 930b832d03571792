import BlockMarkup.Proofs.Files.Machine
import BlockMarkup.Proofs.Files.Path
import BlockMarkup.Proofs.Text.Lines

/-! # Merging into an index

An index that is written is read back as the lines that it was made of (`usesIn_ofUses`). So each merge adds
to the lines of the merges before it, and after any number of them the index has the lines that it began
with, and then the new ones, as they were first met (`index_of_merges`).
-/

namespace BlockMarkup

namespace StylesheetIndex

variable {line : List Char} {lines entries : List (List Char)} {calls : List (List (List Char))}

/-- A line that uses a stylesheet, without a line break. -/
def IsEntry (line : List Char) : Prop := isUse line = true ∧ '\n' ∉ line ∧ '\r' ∉ line

instance (line : List Char) : Decidable (IsEntry line) := inferInstanceAs (Decidable (_ ∧ _))

/-! ## The text of an index -/

/-- Lines as one text, each closed by a line feed. If there are none, a line feed is all there is. -/
def closedLines (lines : List (List Char)) : List Char :=
  if lines = [] then ['\n'] else lines.flatMap (· ++ ['\n'])

theorem ofUses_eq (lines : List (List Char)) : ofUses lines = closedLines lines := by
  induction lines with
  | nil => rfl
  | cons line lines ih =>
    rw [closedLines, if_neg (List.cons_ne_nil line lines), List.flatMap_cons]
    cases lines with
    | nil => simp [ofUses, Text.joined]
    | cons next rest =>
      rw [closedLines, if_neg (List.cons_ne_nil next rest)] at ih
      rw [← ih, ofUses, ofUses, Text.joined_cons line (List.cons_ne_nil next rest)]
      simp

theorem notMem_ofUses (h : ∀ line ∈ lines, IsEntry line) : '\r' ∉ ofUses lines := by
  rw [ofUses_eq, closedLines]
  split
  · decide
  · intro hmem
    obtain ⟨line, hline, hmem⟩ := List.mem_flatMap.mp hmem
    rcases List.mem_append.mp hmem with hmem | hmem
    · exact (h line hline).2.2 hmem
    · exact absurd hmem (by decide)

/-- Writing and reading an index are inverse to each other. -/
theorem usesIn_ofUses (h : ∀ line ∈ lines, IsEntry line) : usesIn (ofUses lines) = lines := by
  have hblank : usesIn [] = [] := rfl
  have hfilter : ∀ xs ys : List (List Char), (xs ++ ys).filter isUse = xs.filter isUse ++ ys.filter isUse :=
    fun xs ys => List.filter_append xs ys
  rw [ofUses, usesIn, Text.linesOf_append, hfilter]
  have hlast : (Text.linesOf []).filter isUse = [] := rfl
  rw [hlast, List.append_nil]
  cases hlines : lines with
  | nil => rfl
  | cons line rest =>
    -- no entry holds a line feed, so each of them is one line of the text
    have hself : lines.flatMap Text.linesOf = lines := by
      rw [List.flatMap_congr fun line hline => Text.linesOf_of_notMem (h line hline).2.1]
      simp
    rw [← hlines, Text.linesOf_joined (by rw [hlines]; exact List.cons_ne_nil line rest), hself]
    exact List.filter_eq_self.mpr fun line hline => (h line hline).1

/-- The lines that a text is read with are entries. -/
theorem isEntry_of_mem_usesIn {text : List Char} (h : line ∈ usesIn (Text.unifyBreaks text)) :
    IsEntry line := by
  obtain ⟨hline, huse⟩ := List.mem_filter.mp h
  obtain ⟨hfeed, hchars⟩ := Text.mem_of_mem_linesOf hline
  exact ⟨huse, hfeed, fun hmem => Text.notMem_unifyBreaks text (hchars _ hmem)⟩

/-! ## One merge after the other -/

/-- The text of the index after some merges. -/
def mergedText (existing : List Char) (calls : List (List (List Char))) : List Char :=
  ofUses (unique (usesIn (Text.unifyBreaks existing) ++ calls.flatten))

/-- The lines of all merges so far are entries. -/
theorem isEntry_of_mem_merged (text : List Char) (hcalls : ∀ entries ∈ calls, ∀ e ∈ entries, IsEntry e) :
    ∀ line ∈ unique (usesIn (Text.unifyBreaks text) ++ calls.flatten), IsEntry line := by
  intro line hline
  rcases List.mem_append.mp (mem_unique.mp hline) with h | h
  · exact isEntry_of_mem_usesIn h
  · obtain ⟨entries, hentries, he⟩ := List.mem_flatten.mp h
    exact hcalls entries hentries line he

/-- A merge reads what the merges before it have written. -/
theorem merge_mergedText {text : List Char} (hcalls : ∀ entries ∈ calls, ∀ e ∈ entries, IsEntry e)
    (entries : List (List Char)) :
    merge (Text.unifyBreaks (mergedText text calls)) entries = mergedText text (calls ++ [entries]) := by
  have hlines := isEntry_of_mem_merged text hcalls
  have hflatten : (calls ++ [entries]).flatten = calls.flatten ++ entries := by simp
  rw [merge, mergedText, Text.unifyBreaks_of_notMem (notMem_ofUses hlines), usesIn_ofUses hlines,
    mergedText, hflatten, ← List.append_assoc]
  congr 1
  rw [← unique_append_unique, unique_of_nodup (unique_nodup _), unique_append_unique]

/-- What has been merged before adds nothing. -/
theorem mergedText_append_of_mem {text : List Char} (h : entries ∈ calls) :
    mergedText text (calls ++ [entries]) = mergedText text calls := by
  have hflatten : (calls ++ [entries]).flatten = calls.flatten ++ entries := by simp
  rw [mergedText, mergedText, hflatten, ← List.append_assoc]
  congr 1
  refine uniqueBy_append_of_mem id fun e he => ?_
  rw [List.map_id]
  exact List.mem_append_right _ (List.mem_flatten.mpr ⟨entries, h, he⟩)

end StylesheetIndex

namespace Machine

open CommandLine StylesheetIndex

variable {s : Machine} {directory : Path} {place : List String} {old : Option (List Char)}
  {calls : List (List (List Char))} {entries : List (List Char)}

/-- The index of a directory stands in the directory. -/
theorem holds_index (hplace : s.disk.locate [] (s.namesOf directory) = .ok place)
    (hdirectory : s.disk.find? place = some .directory)
    (hfile : s.disk.find? (place ++ [fileName]) = old.map fun t => .file (Text.Utf8.encode t)) :
    s.Holds (directory.join (.ofString fileName)) (place ++ [fileName]) old where
  ne_nil := by simp
  locate := by
    have hname : Path.ofString fileName = ⟨false, [fileName]⟩ := Path.ofString_name (by decide)
    have hnames : s.namesOf (directory.join (.ofString fileName)) = s.namesOf directory ++ [fileName] := by
      rw [hname, namesOf, namesOf, Path.join]
      cases directory.absolute <;> simp
    have hstep : Path.step place fileName = place ++ [fileName] := if_neg (by decide)
    rw [hnames, ← hstep]
    exact Disk.locate_concat hplace hdirectory (by decide)
  find? := hfile

/-- One merge reads the index, if there is one, and writes it. -/
theorem run_mergeIndex (h : s.Holds (directory.join (.ofString fileName)) place old) :
    (mergeIndex directory entries : Action (StateM Machine) Unit) s =
      (.ok (), s.withText place (merge (Text.unifyBreaks (old.getD [])) entries)) := by
  rw [mergeIndex, bind_eq_of_run (run_kind? h)]
  cases old with
  | none => exact run_writeText h
  | some text =>
    have hread : (do
        let existing ← readText (directory.join (.ofString fileName))
        writeText (directory.join (.ofString fileName)) (merge existing entries) :
          Action (StateM Machine) Unit) s =
        (.ok (), s.withText place (merge (Text.unifyBreaks text) entries)) := by
      rw [bind_eq_of_run (run_readText h)]
      exact run_writeText h
    exact hread

/-- Merges do one after the other what one merge does with the text so far. -/
theorem run_merges_from (calls' : List (List (List Char))) {text : List Char}
    (h : s.Holds (directory.join (.ofString fileName)) place (some (mergedText text calls)))
    (hcalls : ∀ entries ∈ calls ++ calls', ∀ e ∈ entries, IsEntry e) :
    (calls'.forM (mergeIndex directory) : Action (StateM Machine) Unit) s =
      (.ok (), if calls' = [] then s else s.withText place (mergedText text (calls ++ calls'))) := by
  induction calls' generalizing s calls with
  | nil => rfl
  | cons entries rest ih =>
    have hbefore : ∀ entries ∈ calls, ∀ e ∈ entries, IsEntry e :=
      fun entries hentries => hcalls entries (List.mem_append_left _ hentries)
    have hfirst : (mergeIndex directory entries : Action (StateM Machine) Unit) s =
        (.ok (), s.withText place (mergedText text (calls ++ [entries]))) := by
      rw [run_mergeIndex h, Option.getD_some, merge_mergedText hbefore]
    have hlist : calls ++ entries :: rest = (calls ++ [entries]) ++ rest := by simp
    rw [hlist] at hcalls
    have hforM : ((entries :: rest).forM (mergeIndex directory) : Action (StateM Machine) Unit) =
        mergeIndex directory entries >>= fun _ => rest.forM (mergeIndex directory) := rfl
    rw [hforM, bind_eq_of_run hfirst, ih h.withText hcalls, if_neg (List.cons_ne_nil _ _), hlist]
    split
    · rename_i hrest
      rw [hrest, List.append_nil]
    · rw [withText_withText]

theorem run_merges (h : s.Holds (directory.join (.ofString fileName)) place old)
    (hcalls : ∀ entries ∈ calls, ∀ e ∈ entries, IsEntry e) :
    (calls.forM (mergeIndex directory) : Action (StateM Machine) Unit) s =
      (.ok (), if calls = [] then s else s.withText place (mergedText (old.getD []) calls)) := by
  cases calls with
  | nil => rfl
  | cons entries rest =>
    have hfirst : (mergeIndex directory entries : Action (StateM Machine) Unit) s =
        (.ok (), s.withText place (mergedText (old.getD []) [entries])) := by
      rw [run_mergeIndex h, merge, mergedText]
      simp
    have hforM : ((entries :: rest).forM (mergeIndex directory) : Action (StateM Machine) Unit) =
        mergeIndex directory entries >>= fun _ => rest.forM (mergeIndex directory) := rfl
    rw [hforM, bind_eq_of_run hfirst, run_merges_from rest h.withText hcalls,
      if_neg (List.cons_ne_nil _ _)]
    split
    · rename_i hrest
      rw [hrest]
    · rw [withText_withText]
      rfl

/-- After merges of any entries the index has the lines that it began with, and behind them the new entries,
all of them once and in the order in which they were first met. Nothing else changes on the machine, and a
merge that is repeated changes nothing at all. -/
theorem index_of_merges (hplace : s.disk.locate [] (s.namesOf directory) = .ok place)
    (hdirectory : s.disk.find? place = some .directory)
    (hfile : s.disk.find? (place ++ [fileName]) = old.map fun t => .file (Text.Utf8.encode t))
    (hcalls : ∀ entries ∈ calls, ∀ e ∈ entries, IsEntry e) :
    ∃ (before further : List (List Char)) (s' : Machine),
      Firsts (usesIn (Text.unifyBreaks (old.getD []))) before ∧
      Firsts (calls.flatten.filter fun e => !before.contains e) further ∧
      s' = (if calls = [] then s
        else s.withText (place ++ [fileName]) (closedLines (before ++ further))) ∧
      (calls.forM (mergeIndex directory) : Action (StateM Machine) Unit) s = (.ok (), s') ∧
      ∀ entries ∈ calls, (mergeIndex directory entries : Action (StateM Machine) Unit) s' =
        (.ok (), s') := by
  have hholds := holds_index hplace hdirectory hfile
  have hnew : calls.flatten.filter (fun e => !(unique (usesIn (Text.unifyBreaks (old.getD [])))).contains e) =
      calls.flatten.filter fun e => !(usesIn (Text.unifyBreaks (old.getD []))).contains e := by
    refine List.filter_congr fun e _ => ?_
    rw [Bool.not_inj_iff, Bool.eq_iff_iff, List.contains_iff_mem, List.contains_iff_mem]
    exact mem_unique
  refine ⟨_, _, _, firsts_unique _, firsts_unique _, rfl, ?_, ?_⟩
  · rw [run_merges hholds hcalls, mergedText, unique_append, ofUses_eq, hnew]
  · intro entries hentries
    rw [if_neg (List.ne_nil_of_mem hentries), hnew, ← unique_append, ← ofUses_eq, ← mergedText,
      run_mergeIndex hholds.withText, Option.getD_some, merge_mergedText hcalls,
      mergedText_append_of_mem hentries, withText_withText]

/-- Two merges into an index with a comment and a repeated line, written on a machine with other line
breaks. -/
theorem index_of_merges_commented :
    let directory : Path := ⟨false, ["scss"]⟩
    let old := "@use \"old\";\r\n// kept?\n@use \"b\";\n@use \"old\";".toList
    let calls := [["@use \"b\";".toList, "@use \"new\";".toList],
      ["@use \"new\";".toList, "@use \"c\";".toList, "@use \"old\";".toList]]
    let s : Machine := { disk := ⟨[(["scss"], .directory),
      (["scss", fileName], .file (Text.Utf8.encode old))]⟩ }
    s.disk.locate [] (s.namesOf directory) = .ok ["scss"] ∧
      s.disk.find? ["scss"] = some .directory ∧
      s.disk.find? (["scss"] ++ [fileName]) = (some old).map (fun t => .file (Text.Utf8.encode t)) ∧
      (∀ entries ∈ calls, ∀ e ∈ entries, IsEntry e) ∧
      (calls.forM (mergeIndex directory) : Action (StateM Machine) Unit) s =
        (.ok (), s.withText ["scss", fileName]
          "@use \"old\";\n@use \"b\";\n@use \"new\";\n@use \"c\";\n".toList) := by
  intro directory old calls s
  have hplace : s.disk.locate [] (s.namesOf directory) = .ok ["scss"] := by decide +kernel
  have hdirectory : s.disk.find? ["scss"] = some .directory := by decide +kernel
  have hfile : s.disk.find? (["scss"] ++ [fileName]) =
      (some old).map (fun t => .file (Text.Utf8.encode t)) := by decide +kernel
  have hcalls : ∀ entries ∈ calls, ∀ e ∈ entries, IsEntry e := by decide +kernel
  refine ⟨hplace, hdirectory, hfile, hcalls, ?_⟩
  obtain ⟨before, further, s', hbefore, hfurther, hs', hrun, -⟩ :=
    index_of_merges hplace hdirectory hfile hcalls
  have hbefore : before = ["@use \"old\";".toList, "@use \"b\";".toList] := by
    rw [hbefore.eq_unique]
    decide +kernel
  subst hbefore
  have hfurther : further = ["@use \"new\";".toList, "@use \"c\";".toList] := by
    rw [hfurther.eq_unique]
    decide +kernel
  subst hfurther
  rw [hrun, hs', if_neg (List.cons_ne_nil _ _)]
  rfl

end Machine

end BlockMarkup
