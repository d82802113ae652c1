import ChangeWatch.CommandLine.Program
import ChangeWatch.Proofs.Text.Json

/-!
# Changes as JSON

A change whose path is text is printed as one line that any JSON reader takes
apart into the word of its kind, the text of its path and its flag; as nothing
is lost on the way, different changes have different lines.  A change whose
path is no text has no such line, and nothing is printed for it.
-/

namespace ChangeWatch

theorem EventKind.word_injective : Function.Injective EventKind.word := by
  intro k k' h
  cases k <;> cases k' <;> first | rfl | exact absurd h (by decide)

namespace Context

/-- The JSON value of a change, given the text of its path. -/
def value (c : Context) (text : List Char) : Json :=
  .object [("kind".toList, .string c.kind.word.toList), ("path".toList, .string text),
    ("is_dir".toList, .boolean c.isDir)]

/-- The characters of a change whose path is a text. -/
def written (c : Context) (text : List Char) : List Char :=
  '\x7b' :: (Json.nameOf "kind".toList ++ (Text.jsonString c.kind.word.toList ++
    ',' :: (Json.nameOf "path".toList ++ (Text.jsonString text ++
      ',' :: (Json.nameOf "is_dir".toList ++ (jsonBool c.isDir ++ ['\x7d']))))))

theorem jsonChars_of_text {c : Context} {text : List Char}
    (h : c.path.bytes = Utf8.encode text) : c.jsonChars = some (c.written text) := by
  have hkind : "\x7b\"kind\":".toList = '\x7b' :: Json.nameOf "kind".toList := by decide
  have hpath : ",\"path\":".toList = ',' :: Json.nameOf "path".toList := by decide
  have hdir : ",\"is_dir\":".toList = ',' :: Json.nameOf "is_dir".toList := by decide
  rw [jsonChars, Utf8.decode?_eq_some.mpr h, Option.map_some, hkind, hpath, hdir]
  simp only [written, List.cons_append, List.append_assoc]
  rfl

/-- **The characters of a change read as its value.** -/
theorem read?_written (c : Context) (text : List Char) :
    Json.read? (c.written text) = some (c.value text) := by
  -- Three members and a value inside the last one: four levels are depth enough.
  obtain ⟨k, hk⟩ : ∃ k, (c.written text).length = k + 4 := by
    refine Nat.exists_eq_add_of_le' ?_
    simp only [written, Json.nameOf, Text.jsonString, List.length_cons, List.length_append]
    omega
  have hvalue : Json.value? (k + 4 + 1) (c.written text) = some (c.value text, []) := by
    refine Json.value?_object ?_
    rw [Json.members?_string, Json.members?_string, Json.members?_boolean]
    rfl
  rw [Json.read?, hk, hvalue]
  rfl

/-- No character of a change is below U+0020. -/
theorem le_of_mem_written {c : Context} {text : List Char} :
    ∀ d ∈ c.written text, 0x20 ≤ d.toNat := by
  have hstring (cs : List Char) : ∀ d ∈ Text.jsonString cs, 0x20 ≤ d.toNat := fun _ =>
    Json.le_of_mem_jsonString
  have hflag : ∀ d ∈ jsonBool c.isDir, 0x20 ≤ d.toNat := by
    have hall : (jsonBool c.isDir).all (fun d => decide (0x20 ≤ d.toNat)) = true := by
      cases c.isDir <;> decide
    simpa only [List.all_eq_true, decide_eq_true_iff] using hall
  simp only [written, Json.nameOf, List.forall_mem_cons, List.forall_mem_append,
    List.not_mem_nil, IsEmpty.forall_iff, implies_true, and_true]
  exact ⟨by decide, ⟨hstring _, by decide⟩, hstring _, by decide, ⟨hstring _, by decide⟩,
    hstring _, by decide, ⟨hstring _, by decide⟩, hflag, by decide⟩

/-- The value of a change tells the change. -/
theorem eq_of_value_eq {c c' : Context} {text text' : List Char}
    (h : c.path.bytes = Utf8.encode text) (h' : c'.path.bytes = Utf8.encode text')
    (heq : c.value text = c'.value text') : c = c' := by
  simp only [value, Json.object.injEq, List.cons.injEq, Prod.mk.injEq, Json.string.injEq,
    Json.boolean.injEq, true_and, and_true, String.toList_inj] at heq
  obtain ⟨hword, rfl, hdir⟩ := heq
  obtain ⟨kind, ⟨bytes⟩, isDir⟩ := c
  obtain ⟨kind', ⟨bytes'⟩, isDir'⟩ := c'
  obtain rfl : kind = kind' := EventKind.word_injective hword
  obtain rfl : bytes = bytes' := h.trans h'.symm
  obtain rfl : isDir = isDir' := hdir
  rfl

end Context

namespace CommandLine

/-- A line of a change with a text for its path. -/
theorem printed?_of_text {c : Context} {text : List Char}
    (h : c.path.bytes = Utf8.encode text) :
    printed? true c = some (String.ofList (c.written text)) := by
  rw [printed?, if_pos rfl, Context.json, Context.jsonChars_of_text h, Option.map_some]

/-- Only a path that is text has a line. -/
theorem text_of_printed? {c : Context} {line : String} (h : printed? true c = some line) :
    ∃ text, c.path.bytes = Utf8.encode text ∧ line = String.ofList (c.written text) := by
  cases htext : Utf8.decode? c.path.bytes with
  | none =>
    rw [printed?, if_pos rfl, Context.json, Context.jsonChars, htext] at h
    cases h
  | some text =>
    have hbytes := Utf8.decode?_eq_some.mp htext
    rw [printed?_of_text hbytes] at h
    exact ⟨text, hbytes, (Option.some.inj h).symm⟩

/-- The bytes of a line read as the value of the change. -/
theorem read?_line (c : Context) (text : List Char) :
    (Utf8.decode? (Utf8.ofString (String.ofList (c.written text)))).bind Json.read? =
      some (c.value text) := by
  rw [Utf8.ofString, String.toList_ofList, Utf8.decode?_encode, Option.bind_some,
    Context.read?_written]

/-- **One decodable line for each change.**  With JSON asked for, a change whose
path is text is printed as a line without control bytes, whose bytes decode as an
object of just the kind, the path and the flag of the change.  Changes printed
alike are the same change.  A change whose path is no text has no JSON, and a
journal is printed as though it had not been noted. -/
theorem json_lines :
    (∀ (c : Context) (text : List Char), c.path.bytes = Utf8.encode text →
      ∃ line, c.json = some line ∧ printed? true c = some line ∧
        (∀ b ∈ Utf8.ofString line, 0x20 ≤ b) ∧
        (Utf8.decode? (Utf8.ofString line)).bind Json.read? =
          some (.object [("kind".toList, .string c.kind.word.toList),
            ("path".toList, .string text), ("is_dir".toList, .boolean c.isDir)])) ∧
    (∀ (c c' : Context) (line : String),
      printed? true c = some line → printed? true c' = some line → c = c') ∧
    (∀ c : Context, (∀ text, c.path.bytes ≠ Utf8.encode text) →
      c.json = none ∧ printed? true c = none ∧
        ∀ callback before after warnings,
          lines true ⟨before ++ .ran callback c :: after, warnings⟩ =
            lines true ⟨before ++ after, warnings⟩) := by
  refine ⟨fun c text h => ?_, fun c c' line h h' => ?_, fun c h => ?_⟩
  · have hprinted := printed?_of_text h
    refine ⟨_, hprinted, hprinted, fun b hb => ?_, read?_line c text⟩
    rw [Utf8.ofString, String.toList_ofList] at hb
    exact Utf8.le_of_mem_encode Context.le_of_mem_written hb
  · -- equal lines are read to equal values
    obtain ⟨text, hbytes, rfl⟩ := text_of_printed? h
    obtain ⟨text', hbytes', hline⟩ := text_of_printed? h'
    have hvalue := read?_line c text
    rw [hline, read?_line c' text'] at hvalue
    exact (Context.eq_of_value_eq hbytes' hbytes (Option.some.inj hvalue)).symm
  · -- no text, no line
    have hjson : c.json = none := by
      rw [Context.json, Context.jsonChars, Utf8.decode?_eq_none.mpr h]
      rfl
    have hprinted : printed? true c = none := by rw [printed?, if_pos rfl, hjson]
    refine ⟨hjson, hprinted, fun callback before after warnings => ?_⟩
    simp only [lines, List.filterMap_append, List.filterMap_cons, hprinted]

/-- A name with a quote, a backslash, a line break, a bell and a letter of two
bytes is printed as no other change is; a name that is no text is not printed. -/
theorem json_lines_awkward :
    (∃ line, printed? true ⟨.create, .ofString "/w/\"\\\n\x07é", false⟩ = some line ∧
      (∀ b ∈ Utf8.ofString line, 0x20 ≤ b) ∧
      ∀ c, printed? true c = some line →
        c = ⟨.create, .ofString "/w/\"\\\n\x07é", false⟩) ∧
    printed? true ⟨.delete, ⟨[0x2F, 0xFF]⟩, false⟩ = none := by
  obtain ⟨hline, hsame, hbroken⟩ := json_lines
  have hnone : Utf8.decode? [0x2F, 0xFF] = none := by
    rw [Utf8.decode?, Utf8.chunks, if_pos (by decide), Utf8.chunks, if_neg (by decide)]
    rfl
  constructor
  · obtain ⟨line, -, hprinted, hplain, -⟩ :=
      hline ⟨.create, .ofString "/w/\"\\\n\x07é", false⟩ "/w/\"\\\n\x07é".toList rfl
    exact ⟨line, hprinted, hplain, fun c hc => hsame _ _ line hc hprinted⟩
  · exact (hbroken ⟨.delete, ⟨[0x2F, 0xFF]⟩, false⟩ (Utf8.decode?_eq_none.mp hnone)).2.1

end CommandLine

end ChangeWatch
