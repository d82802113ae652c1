import ChangeWatch.Proofs.Toml.Names
import ChangeWatch.Proofs.Toml.Tables

/-!
# Documents of simple values are read as the grammar has them

A line is a pair or says nothing, and ends in a comment perhaps; what is behind it is a line break
or the end of the text (`Behind`).  Each part of a line has two lemmas: what is read stands at
the front as the grammar has it (`sound`), and what stands there is read, with all the rest left
(`complete`).  Lines that are pairs of a name and a simple value are so read one after the other
(`lines?_sound`, `lines?_complete`).

Since no header and no dotted key is left without a table, the fields of a document are simple
exactly if they are those of a well-formed text (`document?_eq_some_iff`); the nesting that the
reader allows does not matter.
-/

namespace ChangeWatch.Toml

open Grammar

variable {c : Char} {cs t b rest tail remark : List Char} {name : Name} {v : Value}
  {lines : List Line} {line : Option Line} {rounds : Nat}

/-! ### The ends of lines -/

namespace Grammar

/-- What is behind a line, and what follows then: nothing more, or what is behind a line break. -/
inductive Behind : List Char → List Char → Prop
  | stop : Behind [] []
  | newline {nl rest : List Char} : Newline nl → Behind (nl ++ rest) rest

theorem Behind.front (h : Behind tail rest) : ∀ c ∈ tail.head?, c = '\n' ∨ c = '\r' := by
  cases h with
  | stop => exact fun c hc => absurd hc (by simp)
  | newline hnl =>
    cases hnl with
    | feed => exact fun c hc => Or.inl (Option.some.inj hc).symm
    | returned => exact fun c hc => Or.inr (Option.some.inj hc).symm

end Grammar

theorem dropBlanks_append (h : Blanks b) (hrest : ∀ c ∈ rest.head?, isBlank c = false) :
    dropBlanks (b ++ rest) = rest :=
  dropWhile_front h hrest

/-- A text is the blanks at its front and what is left of it. -/
theorem exists_blanks (cs : List Char) : ∃ b, Blanks b ∧ cs = b ++ dropBlanks cs :=
  ⟨cs.takeWhile isBlank, List.all_eq_true.mp List.all_takeWhile,
    List.takeWhile_append_dropWhile.symm⟩

theorem lineBreak?_sound (h : lineBreak? cs = some rest) : Behind cs rest := by
  unfold lineBreak? at h
  split at h
  · obtain rfl := Option.some.inj h
    exact .newline .feed
  · obtain rfl := Option.some.inj h
    exact .newline .returned
  · exact absurd h (by simp)

/-- A line ends in blanks and perhaps a comment, and what follows is read on. -/
theorem lineEnd?_complete (h : Trail t) (hbehind : Behind tail rest) :
    lineEnd? (t ++ tail) = some rest := by
  have hfront := hbehind.front
  have hleft : dropComment (dropBlanks (t ++ tail)) = tail := by
    cases h with
    | blanks hb =>
      rw [dropBlanks_append hb fun c hc => by rcases hfront c hc with rfl | rfl <;> rfl]
      unfold dropComment
      split
      · next heq => exact absurd (hfront '#' rfl) (by decide)
      · rfl
    | @comment b remark hb hremark =>
      rw [List.append_assoc, dropBlanks_append hb fun c hc => by
        obtain rfl := Option.some.inj hc
        rfl]
      exact dropWhile_front hremark fun c hc => by rcases hfront c hc with rfl | rfl <;> rfl
  unfold lineEnd?
  rw [hleft]
  cases hbehind with
  | stop => rfl
  | newline hnl => cases hnl <;> rfl

theorem lineEnd?_sound (h : lineEnd? cs = some rest) :
    ∃ t tail, cs = t ++ tail ∧ Trail t ∧ Behind tail rest := by
  obtain ⟨b, hb, hcs⟩ := exists_blanks cs
  have htrail : ∃ t, cs = t ++ dropComment (dropBlanks cs) ∧ Trail t := by
    generalize dropBlanks cs = left at hcs
    unfold dropComment
    split
    · next remark =>
      refine ⟨b ++ '#' :: remark.takeWhile isPlain, ?_, .comment hb
        (List.all_eq_true.mp List.all_takeWhile)⟩
      rw [hcs, List.append_assoc, List.cons_append, List.takeWhile_append_dropWhile]
    · exact ⟨b, hcs, .blanks hb⟩
  obtain ⟨t, ht, htrail⟩ := htrail
  refine ⟨t, _, ht, htrail, ?_⟩
  unfold lineEnd? at h
  split at h
  · next heq =>
    obtain rfl := Option.some.inj h
    rw [heq]
    exact .stop
  · exact lineBreak?_sound h

/-! ### Pairs -/

theorem keyParts?_ne_nil {names : List Name} (h : keyParts? rounds cs = some (names, rest)) :
    names ≠ [] := by
  unfold keyParts? at h
  split at h
  · exact absurd h (by simp)
  · obtain ⟨⟨part, left⟩, -, h⟩ := Option.bind_eq_some_iff.mp h
    dsimp only at h
    split at h
    · obtain ⟨⟨parts, more⟩, -, h⟩ := Option.bind_eq_some_iff.mp h
      obtain ⟨rfl, -⟩ := Prod.mk.inj (Option.some.inj h)
      exact List.cons_ne_nil _ _
    · obtain ⟨rfl, -⟩ := Prod.mk.inj (Option.some.inj h)
      exact List.cons_ne_nil _ _

/-- A key of one part that is read stands between blanks at the front. -/
theorem key?_sound (h : key? cs = some ([name], rest)) :
    ∃ b t b', cs = b ++ t ++ b' ++ rest ∧ Blanks b ∧ KeyPart t name ∧ Blanks b' := by
  unfold key? at h
  obtain ⟨found, hfound, h⟩ := Option.bind_eq_some_iff.mp h
  split at h
  · obtain rfl := Option.some.inj h
    unfold keyParts? at hfound
    obtain ⟨⟨part, left⟩, hpart, hfound⟩ := Option.bind_eq_some_iff.mp hfound
    dsimp only at hfound
    obtain ⟨b, hb, hcs⟩ := exists_blanks cs
    obtain ⟨t, ht, htext⟩ := keyPart?_sound hpart
    obtain ⟨b', hb', hleft⟩ := exists_blanks left
    split at hfound
    · -- behind a point there is one more part at least
      obtain ⟨⟨parts, more⟩, hmore, hfound⟩ := Option.bind_eq_some_iff.mp hfound
      obtain ⟨hnames, -⟩ := Prod.mk.inj (Option.some.inj hfound)
      exact absurd (List.cons.inj hnames).2 (keyParts?_ne_nil hmore)
    · obtain ⟨hnames, rfl⟩ := Prod.mk.inj (Option.some.inj hfound)
      obtain ⟨rfl, -⟩ := List.cons.inj hnames
      refine ⟨b, t, b', ?_, hb, htext, hb'⟩
      rw [List.append_assoc, ← hleft, List.append_assoc, ← ht, ← hcs]
  · exact absurd h (by simp)

/-- What a line may begin with, if not with a key. -/
def isLineMark (c : Char) : Bool :=
  isBlank c || c = '#' || c = '\n' || c = '\r' || c = '['

/-- A part of a key begins with a character of its own. -/
theorem Grammar.KeyPart.front_mark (h : KeyPart t name) :
    ∃ c more, t = c :: more ∧ isLineMark c = false := by
  obtain ⟨c, more, rfl, hc⟩ := h.front
  refine ⟨c, more, rfl, Bool.eq_false_iff.mpr fun hmark => ?_⟩
  simp only [isLineMark, isBlank, Bool.or_eq_true, decide_eq_true_iff] at hmark
  rcases hmark with ((((rfl | rfl) | rfl) | rfl) | rfl) | rfl <;> exact absurd hc (by decide)

theorem Grammar.KeyPart.dropBlanks (h : KeyPart t name) (rest : List Char) :
    dropBlanks (t ++ rest) = t ++ rest := by
  obtain ⟨c, more, rfl, hc⟩ := h.front_mark
  simp only [isLineMark, Bool.or_eq_false_iff] at hc
  exact List.dropWhile_cons_of_neg (by rw [hc.1.1.1.1]; decide)

/-- No character of a word comes after blanks, if none comes after them. -/
theorem isWordChar_behind (hb : Blanks b) (hrest : ∀ c ∈ rest.head?, isWordChar c = false) :
    ∀ c ∈ (b ++ rest).head?, isWordChar c = false := by
  cases b with
  | nil => exact hrest
  | cons d more =>
    intro c hc
    obtain rfl := Option.some.inj hc
    refine Bool.eq_false_iff.mpr fun hword => ?_
    exact absurd (hb d List.mem_cons_self) (by rw [isBlank_of_isWordChar hword]; decide)

/-- What is none of a word is none of a bare key. -/
theorem isBareChar_of_not_isWordChar (h : isWordChar c = false) : isBareChar c = false := by
  unfold isWordChar at h
  unfold isBareChar
  simp only [Bool.or_eq_false_iff] at h ⊢
  exact ⟨⟨h.1.1.1.1.1, h.1.1.1.2⟩, h.2⟩

/-- A part with a sign behind it is all of a key. -/
theorem keyParts?_lone {rounds : Nat} {behind : List Char}
    (hpart : keyPart? (dropBlanks cs) = some (name, behind))
    (hsign : dropBlanks behind = '=' :: rest) :
    keyParts? (rounds + 1) cs = some ([name], '=' :: rest) := by
  unfold keyParts?
  simp only [hpart, Option.bind_eq_bind, Option.bind_some, hsign]
  rfl

theorem key?_complete (ht : KeyPart t name) (hb : Blanks b) (rest : List Char) :
    key? (t ++ b ++ '=' :: rest) = some ([name], '=' :: rest) := by
  have hsign : ∀ c ∈ ('=' :: rest).head?, isWordChar c = false := by
    intro c hc
    obtain rfl := Option.some.inj hc
    rfl
  have hpart := keyPart?_complete ht fun c hc =>
    isBareChar_of_not_isWordChar (isWordChar_behind hb hsign c hc)
  have hblanks : dropBlanks (b ++ '=' :: rest) = '=' :: rest := by
    refine dropBlanks_append hb fun c hc => ?_
    obtain rfl := Option.some.inj hc
    rfl
  rw [List.append_assoc, key?, keyParts?_lone (ht.dropBlanks _ ▸ hpart) hblanks]
  rfl

theorem after?_eq_some {mark : Char} : after? mark cs = some rest ↔ cs = mark :: rest := by
  cases cs with
  | nil => simp [after?]
  | cons c more =>
    unfold after?
    split
    · next heq => simp [heq]
    · next hne => simp [hne]

theorem Grammar.Pair.front (h : Pair t [name] v) :
    ∃ c more, t = c :: more ∧ isLineMark c = false := by
  cases h with
  | mk hkey _ _ _ =>
    cases hkey with
    | dotted _ _ _ hmore => cases hmore
    | simple hk =>
      obtain ⟨c, more, rfl, hc⟩ := hk.front_mark
      exact ⟨c, _, rfl, hc⟩

/-- A pair with a key of one part and a simple value that is read stands behind blanks at the
front. -/
theorem topPair?_sound (h : topPair? cs = some (([name], v), rest)) (hv : v.Simple) :
    ∃ b t, cs = b ++ t ++ rest ∧ Blanks b ∧ Pair t [name] v := by
  obtain ⟨⟨key, left⟩, hkey, h⟩ := Option.bind_eq_some_iff.mp h
  obtain ⟨behind, hsign, h⟩ := Option.bind_eq_some_iff.mp h
  obtain ⟨⟨w, more⟩, hw, h⟩ := Option.bind_eq_some_iff.mp h
  obtain ⟨heq, rfl⟩ := Prod.mk.inj (Option.some.inj h)
  obtain ⟨rfl, rfl⟩ := Prod.mk.inj heq
  obtain rfl := after?_eq_some.mp hsign
  obtain ⟨b, k, b', rfl, hb, hk, hb'⟩ := key?_sound hkey
  obtain ⟨b'', hb'', hbehind⟩ := exists_blanks behind
  obtain ⟨t, ht, hsays⟩ := says_of_value? hw hv
  refine ⟨b, k ++ b' ++ '=' :: b'' ++ t, ?_, hb, .mk (.simple hk) hb' hb'' hsays⟩
  rw [hbehind, ht]
  simp

theorem topPair?_complete (h : Pair t [name] v) (hv : v.Simple) (hfits : v.Fits)
    (hrest : ∀ c ∈ rest.head?, isWordChar c = false) :
    topPair? (t ++ rest) = some (([name], v), rest) := by
  cases h with
  | @mk k b b' t _ _ hkey hb hb' hsays =>
    cases hkey with
    | dotted _ _ _ hmore => cases hmore
    | simple hk =>
      obtain ⟨hne, hword, -⟩ := hsays.word hv
      have hsplit : k ++ b ++ '=' :: b' ++ t ++ rest = k ++ b ++ '=' :: (b' ++ (t ++ rest)) := by
        simp
      have hvalue : dropBlanks (b' ++ (t ++ rest)) = t ++ rest := by
        unfold dropBlanks
        rw [List.dropWhile_append_of_pos hb']
        exact dropBlanks_word hne hword rest
      unfold topPair? pair?
      rw [hsplit, key?_complete hk hb]
      show (value? (depthLimit - 1) (dropBlanks (b' ++ (t ++ rest)))).bind _ = _
      rw [hvalue, depthLimit, value?_of_says _ hsays hv hfits hrest]
      rfl

/-! ### Lines -/

/-- A pair of a key of one part and a simple value. -/
def Line.Flat : Line → Prop
  | .pair key v => (∃ name, key = [name]) ∧ v.Simple
  | .header .. => False

theorem lines?_nil (h : lines? rounds [] = some lines) : lines = [] := by
  cases rounds with
  | zero => exact absurd h (by simp [lines?])
  | succ rounds => exact (Option.some.inj h).symm

/-- What is read of the rest of a document are the lines behind a line. -/
theorem lines_of_behind (hexpression : Expression t line) (hbehind : Behind tail rest)
    (hmore : lines? rounds rest = some lines) (hlines : Lines rest lines) :
    Lines (t ++ tail) (line.toList ++ lines) := by
  cases hbehind with
  | stop =>
    obtain rfl := lines?_nil hmore
    rw [List.append_nil, List.append_nil]
    exact .last hexpression
  | newline hnl =>
    rw [← List.append_assoc]
    exact .more hexpression hnl hlines

theorem Grammar.Blanks.append {b' : List Char} (hb : Blanks b) (hb' : Blanks b') :
    Blanks (b ++ b') :=
  List.forall_mem_append.mpr ⟨hb, hb'⟩

theorem Grammar.Trail.blanks_append (hb : Blanks b) (ht : Trail t) : Trail (b ++ t) := by
  cases ht with
  | blanks ht => exact .blanks (hb.append ht)
  | comment ht hremark =>
    rw [← List.append_assoc]
    exact .comment (hb.append ht) hremark

theorem not_flat_of_header? {first : Line} (h : header? cs = some (first, rest)) : ¬first.Flat := by
  unfold header? at h
  split at h
  · obtain ⟨found, -, h⟩ := Option.bind_eq_some_iff.mp h
    obtain ⟨once, -, h⟩ := Option.bind_eq_some_iff.mp h
    obtain ⟨twice, -, h⟩ := Option.bind_eq_some_iff.mp h
    obtain ⟨rfl, -⟩ := Prod.mk.inj (Option.some.inj h)
    exact id
  · obtain ⟨found, -, h⟩ := Option.bind_eq_some_iff.mp h
    obtain ⟨once, -, h⟩ := Option.bind_eq_some_iff.mp h
    obtain ⟨rfl, -⟩ := Prod.mk.inj (Option.some.inj h)
    exact id
  · exact absurd h (by simp)

/-- The lines that are read are those of the text, if they are pairs of a simple value. -/
theorem lines?_sound (h : lines? rounds cs = some lines) (hflat : ∀ line ∈ lines, line.Flat) :
    Lines cs lines := by
  induction rounds generalizing cs lines with
  | zero => exact absurd h (by simp [lines?])
  | succ rounds ih =>
    obtain ⟨b, hb, hcs⟩ := exists_blanks cs
    unfold lines? at h
    split at h
    · next hnil =>
      obtain rfl := Option.some.inj h
      rw [hcs, hnil, List.append_nil]
      exact .last (.unsaid (.blanks hb))
    · next c left hleft =>
      rw [hleft] at hcs
      split at h
      · -- a line that says nothing
        obtain ⟨rest, hend, hmore⟩ := Option.bind_eq_some_iff.mp h
        obtain ⟨t, tail, htext, htrail, hbehind⟩ := lineEnd?_sound hend
        rw [hcs, htext, ← List.append_assoc]
        exact lines_of_behind (.unsaid (htrail.blanks_append hb)) hbehind hmore
          (ih hmore hflat)
      · split at h
        · -- a header is no pair
          obtain ⟨⟨first, behind⟩, hfirst, h⟩ := Option.bind_eq_some_iff.mp h
          obtain ⟨rest, -, h⟩ := Option.bind_eq_some_iff.mp h
          obtain ⟨more, -, rfl⟩ := Option.map_eq_some_iff.mp h
          exact absurd (hflat first List.mem_cons_self) (not_flat_of_header? hfirst)
        · -- a pair may have blanks at its front, which are then those of the line
          obtain ⟨⟨⟨key, v⟩, behind⟩, hpair, h⟩ := Option.bind_eq_some_iff.mp h
          obtain ⟨rest, hend, h⟩ := Option.bind_eq_some_iff.mp h
          obtain ⟨more, hmore, rfl⟩ := Option.map_eq_some_iff.mp h
          obtain ⟨⟨⟨name, rfl⟩, hv⟩, hrest⟩ := List.forall_mem_cons.mp hflat
          obtain ⟨b', t, htext, hb', hsays⟩ := topPair?_sound hpair hv
          obtain ⟨trail, tail, rfl, htrail, hbehind⟩ := lineEnd?_sound hend
          have hsplit : cs = (b ++ b') ++ t ++ trail ++ tail := by
            rw [hcs, htext]
            simp
          rw [hsplit]
          exact lines_of_behind (.pair (hb.append hb') hsays htrail) hbehind hmore
            (ih hmore hrest)

/-! ### The other way -/

theorem Grammar.Trail.front (ht : Trail t) (hbehind : Behind tail rest) :
    ∀ c ∈ (t ++ tail).head?, isWordChar c = false := by
  cases ht with
  | blanks hb =>
    exact isWordChar_behind hb fun c hc => by rcases hbehind.front c hc with rfl | rfl <;> rfl
  | comment hb _ =>
    rw [List.append_assoc]
    exact isWordChar_behind hb fun c hc => by
      obtain rfl := Option.some.inj hc
      rfl

/-- Behind the blanks at its front, the end of a line begins with a comment or is over. -/
theorem Grammar.Trail.dropBlanks (ht : Trail t) (hbehind : Behind tail rest) :
    ∃ t', Toml.dropBlanks (t ++ tail) = t' ++ tail ∧ Trail t' ∧
      ∀ c ∈ (t' ++ tail).head?, c = '#' ∨ c = '\n' ∨ c = '\r' := by
  cases ht with
  | blanks hb =>
    refine ⟨[], dropBlanks_append hb fun c hc => ?_, .blanks (List.forall_mem_nil _),
      fun c hc => Or.inr (hbehind.front c hc)⟩
    rcases hbehind.front c hc with rfl | rfl <;> rfl
  | @comment b remark hb hremark =>
    refine ⟨'#' :: remark, ?_, .comment (t := []) (List.forall_mem_nil _) hremark,
      fun c hc => Or.inl (Option.some.inj hc).symm⟩
    rw [List.append_assoc]
    refine dropBlanks_append hb fun c hc => ?_
    obtain rfl := Option.some.inj hc
    rfl

/-- A line that is a pair of a simple value, or says nothing, is read as what it says. -/
theorem lines?_of_expression (hexpression : Expression t line)
    (hflat : ∀ l ∈ line.toList, l.Flat ∧ l.Fits) (hbehind : Behind tail rest)
    (hmore : lines? rounds rest = some lines) :
    lines? (rounds + 1) (t ++ tail) = some (line.toList ++ lines) := by
  cases hexpression with
  | unsaid htrail =>
    -- the reader has dropped the blanks of the line before it looks for its end
    obtain ⟨t', hdrop, htrail', hfront⟩ := htrail.dropBlanks hbehind
    have hend := lineEnd?_complete htrail' hbehind
    unfold lines?
    rw [hdrop]
    cases hleft : t' ++ tail with
    | nil =>
      cases hbehind with
      | stop =>
        obtain rfl := lines?_nil hmore
        rfl
      | newline hnl => cases hnl <;> exact absurd hleft (by simp)
    | cons c more =>
      rw [hleft] at hend hfront
      dsimp only
      rw [if_pos (hfront c rfl), hend]
      exact hmore
  | @pair b t trail key v hb hpair htrail =>
    obtain ⟨⟨⟨name, rfl⟩, hv⟩, hfits⟩ := hflat _ List.mem_cons_self
    obtain ⟨c, more, htext, hc⟩ := hpair.front
    have hread := topPair?_complete hpair hv hfits (htrail.front hbehind)
    have hend := lineEnd?_complete htrail hbehind
    simp only [isLineMark, Bool.or_eq_false_iff, decide_eq_false_iff_not] at hc
    obtain ⟨⟨⟨⟨hblank, hcomment⟩, hfeed⟩, hreturn⟩, hbracket⟩ := hc
    have hdrop : Toml.dropBlanks (b ++ t ++ trail ++ tail) = t ++ (trail ++ tail) := by
      rw [List.append_assoc, List.append_assoc]
      refine dropBlanks_append hb fun d hd => ?_
      rw [htext] at hd
      obtain rfl := Option.some.inj hd
      exact hblank
    unfold lines?
    rw [hdrop]
    rw [htext, List.cons_append] at hread ⊢
    dsimp only
    rw [if_neg (by simp [hcomment, hfeed, hreturn]), if_neg hbracket, hread]
    show (lineEnd? (trail ++ tail)).bind
      (fun rest => (Line.pair [name] v :: ·) <$> lines? rounds rest) = _
    rw [hend, Option.bind_some, hmore]
    rfl
  | header => exact absurd (hflat _ List.mem_cons_self).1 id
  | listHeader => exact absurd (hflat _ List.mem_cons_self).1 id

/-- The lines of a text that are pairs of a simple value are read, in a round for each. -/
theorem lines?_complete (h : Lines cs lines) (hflat : ∀ line ∈ lines, line.Flat ∧ line.Fits)
    (hrounds : cs.length < rounds) : lines? rounds cs = some lines := by
  induction h generalizing rounds with
  | @last t line hexpression =>
    cases rounds with
    | zero => exact absurd hrounds (Nat.not_lt_zero _)
    | succ rounds =>
      have hread : ∀ n, lines? (n + 2) t = some line.toList := fun n => by
        have hnil : lines? (n + 1) [] = some [] := rfl
        have hline := lines?_of_expression hexpression hflat .stop hnil
        rwa [List.append_nil, List.append_nil] at hline
      cases t with
      | nil => rw [lines?_nil (hread 0)]; rfl
      | cons c more =>
        rw [List.length_cons] at hrounds
        obtain ⟨n, rfl⟩ : ∃ n, rounds = n + 1 := ⟨rounds - 1, by omega⟩
        exact hread n
  | @more t nl rest line lines hexpression hnl _ ih =>
    obtain ⟨hline, hlines⟩ := List.forall_mem_append.mp hflat
    have hlength : 1 ≤ nl.length := by cases hnl <;> decide
    rw [List.length_append, List.length_append] at hrounds
    obtain ⟨n, rfl⟩ : ∃ n, rounds = n + 1 := ⟨rounds - 1, by omega⟩
    rw [List.append_assoc]
    exact lines?_of_expression hexpression hline (.newline hnl) (ih hlines (by omega))

/-! ### Documents -/

/-- Fields whose values are integers that fit 64 bits with sign, and booleans. -/
def Fields.Simple (fields : Fields) : Prop :=
  ∀ f ∈ fields, f.2.Simple ∧ f.2.Fits

theorem Fields.Simple.not_tabled {fields : Fields} (h : fields.Simple) : ¬fields.Tabled := by
  rintro ⟨f, hf, hopened⟩
  obtain ⟨hsimple, -⟩ := h f hf
  generalize f.2 = v at hopened hsimple
  cases hopened with
  | table => cases hsimple
  | tables => cases hsimple

theorem document?_eq_bind (text : List Char) :
    document? text = (lines? ((dropMark text).length + 1) (dropMark text)).bind assembled := rfl

/-- The documents of simple values are read for what they are, and nothing else is read as one. -/
theorem document?_eq_some_iff {text : List Char} {fields : Fields} (h : fields.Simple) :
    document? text = some fields ↔ WellFormed (dropMark text) fields := by
  have hlines : ∀ {lines}, assembled lines = some fields →
      ∀ line ∈ lines, line.Flat ∧ line.Fits := by
    intro lines hmade line hline
    obtain ⟨rfl, -⟩ := (assembled_eq_some_iff h.not_tabled).mp hmade
    obtain ⟨f, hf, rfl⟩ := List.mem_map.mp hline
    exact ⟨⟨⟨f.1, rfl⟩, (h f hf).1⟩, (h f hf).2⟩
  rw [document?_eq_bind, Option.bind_eq_some_iff]
  constructor
  · rintro ⟨lines, hread, hmade⟩
    exact ⟨lines, lines?_sound hread fun line hline => (hlines hmade line hline).1, hmade⟩
  · rintro ⟨lines, hlines', hmade⟩
    exact ⟨lines, lines?_complete hlines' (hlines hmade) (Nat.lt_succ_self _), hmade⟩

/-- No two fields of a document of simple values have the same name. -/
theorem nodup_of_document? {text : List Char} {fields : Fields} (h : fields.Simple)
    (hread : document? text = some fields) : (fields.map (·.1)).Nodup := by
  rw [document?_eq_bind] at hread
  obtain ⟨lines, -, hmade⟩ := Option.bind_eq_some_iff.mp hread
  exact ((assembled_eq_some_iff h.not_tabled).mp hmade).2

/-! ### The front of a document -/

/-- A character that may stand at the front of a document. -/
def MayBegin (c : Char) : Prop :=
  isLineMark c = true ∨ isBareChar c = true ∨ c = '"' ∨ c = '\''

theorem mayBegin_behind (hb : Blanks b) (hrest : ∀ c ∈ rest.head?, MayBegin c) :
    ∀ c ∈ (b ++ rest).head?, MayBegin c := by
  cases b with
  | nil => exact hrest
  | cons d more =>
    intro c hc
    obtain rfl := Option.some.inj hc
    have hblank := hb d List.mem_cons_self
    exact Or.inl (by simp [isLineMark, hblank])

theorem mayBegin_mark (hmark : isLineMark c = true) :
    ∀ d ∈ (c :: rest).head?, MayBegin d := by
  intro d hd
  obtain rfl := Option.some.inj hd
  exact Or.inl hmark

theorem Grammar.Key.mayBegin {key : List Name} (h : Key t key) :
    ∃ c more, t = c :: more ∧ MayBegin c := by
  cases h with
  | simple hk =>
    obtain ⟨c, more, rfl, hc⟩ := hk.front
    exact ⟨c, more, rfl, Or.inr hc⟩
  | dotted hk =>
    obtain ⟨c, more, rfl, hc⟩ := hk.front
    exact ⟨c, _, rfl, Or.inr hc⟩

theorem Grammar.Expression.mayBegin (h : Expression t line)
    (htail : ∀ c ∈ tail.head?, MayBegin c) : ∀ c ∈ (t ++ tail).head?, MayBegin c := by
  cases h with
  | unsaid htrail =>
    cases htrail with
    | blanks hb => exact mayBegin_behind hb htail
    | comment hb _ =>
      rw [List.append_assoc]
      exact mayBegin_behind hb (mayBegin_mark rfl)
  | pair hb hpair _ =>
    rw [List.append_assoc, List.append_assoc]
    refine mayBegin_behind hb fun d hd => ?_
    cases hpair with
    | mk hkey _ _ _ =>
      obtain ⟨c, more, rfl, hc⟩ := hkey.mayBegin
      obtain rfl := Option.some.inj hd
      exact hc
  | header hb _ _ _ _ =>
    simp only [List.append_assoc, List.cons_append]
    exact mayBegin_behind hb (mayBegin_mark rfl)
  | listHeader hb _ _ _ _ =>
    simp only [List.append_assoc, List.cons_append]
    exact mayBegin_behind hb (mayBegin_mark rfl)

/-- A document begins with a blank, a comment, a line break, a header or a key. -/
theorem Grammar.Lines.mayBegin (h : Lines t lines) : ∀ c ∈ t.head?, MayBegin c := by
  cases h with
  | last hexpression =>
    have hnil : ∀ c ∈ ([] : List Char).head?, MayBegin c := fun c hc => absurd hc (by simp)
    have hfront := hexpression.mayBegin hnil
    rwa [List.append_nil] at hfront
  | more hexpression hnl _ =>
    rw [List.append_assoc]
    refine hexpression.mayBegin ?_
    cases hnl with
    | feed => exact mayBegin_mark rfl
    | returned => exact mayBegin_mark rfl

/-- A document of the grammar has no byte order mark at its front. -/
theorem Grammar.Lines.dropMark (h : Lines t lines) : dropMark t = t := by
  unfold Toml.dropMark
  split
  · have hfront : MayBegin '\uFEFF' := h.mayBegin _ rfl
    unfold MayBegin at hfront
    exact absurd hfront (by decide)
  · rfl

end ChangeWatch.Toml
