import ChangeWatch.CommandLine.Program
import ChangeWatch.Proofs.Dispatch.Bookkeeping.Jobs
import ChangeWatch.Proofs.Text.Utf8

/-!
# Changes as lines for people

What is printed for a change is its path within a frame: the kind and its colour before it,
and perhaps a slash behind it.  The path is shown as it is, so whatever control bytes a name
has are in the line as well, a line feed among them (`count_line`).

What is printed for a journal therefore has one line feed for each change that was told, and
those of the paths besides.  It is read back line by line, in order, exactly as long as no path
has a line feed (`lines_follow_paths`); a name with one makes a line more
(`name_with_feed_makes_two_lines`).
-/

namespace ChangeWatch

namespace Context

/-- What is written before the path of a change. -/
def lead (k : EventKind) : List Char :=
  "\x1b[".toList ++ colour k ++ 'm' :: (paddedWord k ++ "\x1b[39m ".toList)

/-- What is written behind the path of a change. -/
def slash (isDir : Bool) : List Char :=
  if isDir then ['/'] else []

theorem line_eq (c : Context) :
    c.line.toList = lead c.kind ++ Utf8.lossyChars c.path.bytes ++ slash c.isDir := by
  rw [line, String.toList_ofList]
  rfl

/-- Beside the path, a line has no control character but those that begin a colour. -/
theorem frame_plain (k : EventKind) (isDir : Bool) :
    ∀ d ∈ lead k ++ slash isDir, d.toNat = 0x1B ∨ 0x20 ≤ d.toNat := by
  have hall : (lead k ++ slash isDir).all
      (fun d => decide (d.toNat = 0x1B ∨ 0x20 ≤ d.toNat)) = true := by
    cases k <;> cases isDir <;> decide
  simpa only [List.all_eq_true, decide_eq_true_iff] using hall

/-- **A line has the control bytes of its path**, each as often, but for those that begin a
colour. -/
theorem count_line (c : Context) {b : UInt8} (hb : b < 0x20) (hcolour : b ≠ 0x1B) :
    c.line.toList.count (Char.ofNat b.toNat) = c.path.bytes.count b := by
  have hlt : b.toNat < 0x20 := UInt8.lt_iff_toNat_lt.mp hb
  have hne : b.toNat ≠ 0x1B := fun heq => hcolour (UInt8.toNat_inj.mp heq)
  have hnumber : (Char.ofNat b.toNat).toNat = b.toNat := Utf8.toNat_ofNat (.inl (by omega))
  have hframe : (lead c.kind ++ slash c.isDir).count (Char.ofNat b.toNat) = 0 := by
    refine List.count_eq_zero.mpr fun hmem => ?_
    rcases frame_plain _ _ _ hmem with heq | hle
    · exact hne (hnumber ▸ heq)
    · omega
  obtain ⟨hlead, hslash⟩ := Nat.add_eq_zero_iff.mp (List.count_append.symm.trans hframe)
  rw [line_eq, List.count_append, List.count_append, hlead, hslash,
    Utf8.count_lossyChars _ (UInt8.lt_trans hb (by decide)), Nat.zero_add, Nat.add_zero]

theorem count_feeds (c : Context) : c.line.toList.count '\n' = c.path.bytes.count 0x0A :=
  c.count_line (b := 0x0A) (by decide) (by decide)

theorem feed_not_mem_line (c : Context) : '\n' ∉ c.line.toList ↔ 0x0A ∉ c.path.bytes := by
  rw [← List.count_eq_zero, c.count_feeds, List.count_eq_zero]

end Context

namespace CommandLine

/-- The changes that callbacks were given, in order. -/
def told (j : Journal) : List Context :=
  j.ran.map (·.2)

/-- What is printed for a journal, each line with a line feed behind it. -/
def printedText (json : Bool) (j : Journal) : List Char :=
  (lines json j).flatMap fun line => line.toList ++ ['\n']

theorem lines_eq (j : Journal) : lines false j = (told j).map Context.line := by
  unfold lines told Journal.ran
  induction j.notes with
  | nil => rfl
  | cons note notes ih =>
    cases note with
    | ran callback c => exact congrArg (c.line :: ·) ih
    | _ => exact ih

/-- Lines with a line feed behind each are their texts, parted by line feeds, and an empty one. -/
theorem flatMap_feeds (texts : List (List Char)) :
    (texts.flatMap fun text => text ++ ['\n']) = ['\n'].intercalate (texts ++ [[]]) := by
  induction texts with
  | nil => rfl
  | cons text more ih =>
    rw [List.flatMap_cons, ih, List.cons_append, List.append_assoc]
    cases more with
    | nil => simp
    | cons next more => simp [List.intercalate_cons_cons]

/-- A text has one line more than it has line feeds. -/
theorem length_splitOn (text : List Char) :
    (text.splitOn '\n').length = text.count '\n' + 1 := by
  induction text with
  | nil => rfl
  | cons d text ih =>
    rw [List.splitOn_cons_eq_if_modifyHead, List.count_cons]
    split
    · rw [List.length_cons, ih]
    · rw [List.length_modifyHead, ih]

/-- What is printed has a line feed for each change that was told, and those of the paths. -/
theorem count_printedText (j : Journal) :
    (printedText false j).count '\n' =
      (told j).length + ((told j).flatMap fun c => c.path.bytes).count 0x0A := by
  rw [printedText, lines_eq, List.flatMap_map]
  induction told j with
  | nil => rfl
  | cons c more ih =>
    rw [List.flatMap_cons, List.flatMap_cons, List.count_append, ih, List.count_append,
      List.count_append, c.count_feeds, List.count_singleton_self, List.length_cons]
    omega

/-- If no path has a line feed, what is printed is read line by line as the lines of the
changes. -/
theorem splitOn_printedText {j : Journal} (h : ∀ c ∈ told j, 0x0A ∉ c.path.bytes) :
    (printedText false j).splitOn '\n' = (told j).map (fun c => c.line.toList) ++ [[]] := by
  have htexts : printedText false j =
      ['\n'].intercalate ((told j).map (fun c => c.line.toList) ++ [[]]) := by
    rw [printedText, lines_eq, List.flatMap_map, ← flatMap_feeds, List.flatMap_map]
  rw [htexts]
  refine List.splitOn_intercalate '\n' ?_ (by simp)
  intro text htext
  rcases List.mem_append.mp htext with hline | hempty
  · obtain ⟨c, hc, rfl⟩ := List.mem_map.mp hline
    exact c.feed_not_mem_line.mpr (h c hc)
  · rw [List.mem_singleton.mp hempty]
    exact List.not_mem_nil

/-- **The lines follow the paths.**  A line has every control byte of its path, as often as the
path, but for those that begin a colour; so it is one line exactly if the path has no line feed.
What is printed for a journal has a line feed for each change that was told, and those of the
paths.  It reads line by line as the lines of these changes, in order, exactly if none of their
paths has a line feed. -/
theorem lines_follow_paths (c : Context) (j : Journal) :
    (∀ b : UInt8, b < 0x20 → b ≠ 0x1B →
      c.line.toList.count (Char.ofNat b.toNat) = c.path.bytes.count b) ∧
    ('\n' ∉ c.line.toList ↔ 0x0A ∉ c.path.bytes) ∧
    (printedText false j).count '\n' =
      (told j).length + ((told j).flatMap fun c => c.path.bytes).count 0x0A ∧
    ((printedText false j).splitOn '\n' = (told j).map (fun c => c.line.toList) ++ [[]] ↔
      ∀ c ∈ told j, 0x0A ∉ c.path.bytes) := by
  refine ⟨fun b => c.count_line, c.feed_not_mem_line, count_printedText j, ?_,
    splitOn_printedText⟩
  -- there is no room for a line feed of a path in so many lines
  intro hlines c hc hfeed
  have hlength := congrArg List.length hlines
  rw [length_splitOn, count_printedText, List.length_append, List.length_map,
    List.length_singleton] at hlength
  have hnone : ((told j).flatMap fun c => c.path.bytes).count 0x0A = 0 := by omega
  exact List.count_eq_zero.mp hnone (List.mem_flatMap_of_mem hc hfeed)

/-- Of two entries the names of which have no line feed, a line each is printed; a bell in one
of them is in its line. -/
theorem two_entries_make_two_lines :
    let created : Context := ⟨.create, .ofString "/w/a\x07", true⟩
    let deleted : Context := ⟨.delete, ⟨[0x2F, 0xFF]⟩, false⟩
    let j : Journal := ⟨[.ran ⟨0⟩ created, .started .owner none, .ran ⟨0⟩ deleted], []⟩
    created.line.toList.count '\x07' = 1 ∧ '\n' ∉ created.line.toList ∧
    (printedText false j).splitOn '\n' = [created.line.toList, deleted.line.toList, []] := by
  intro created deleted j
  obtain ⟨hcontrol, hone, -, htext⟩ := lines_follow_paths created j
  exact ⟨hcontrol 0x07 (by decide) (by decide), hone.mpr (by decide), htext.mpr (by decide)⟩

/-- A name with a line feed makes two lines of one change. -/
theorem name_with_feed_makes_two_lines :
    let created : Context := ⟨.create, .ofString "/w/a\nb", false⟩
    '\n' ∈ created.line.toList ∧
    (printedText false ⟨[.ran ⟨0⟩ created], []⟩).splitOn '\n' =
      ["\x1b[32mcreate  \x1b[39m /w/a".toList, "b".toList, []] := by
  intro created
  have hline : created.line.toList = "\x1b[32mcreate  \x1b[39m /w/a\nb".toList := by
    have hpath : Utf8.lossyChars created.path.bytes = "/w/a\nb".toList := by
      rw [Utf8.lossyChars, show created.path.bytes = Utf8.encode "/w/a\nb".toList from rfl,
        Utf8.chunks_encode, List.map_map]
      rfl
    rw [Context.line_eq, hpath]
    decide
  have htext : printedText false ⟨[.ran ⟨0⟩ created], []⟩ = created.line.toList ++ ['\n'] :=
    List.append_nil _
  rw [htext, hline]
  exact ⟨by decide, by decide⟩

end CommandLine

end ChangeWatch
