import ChangeWatch.Proofs.Settings.RoundTrip
import ChangeWatch.Proofs.Toml.Documents

/-!
# Which texts are settings

A text is read as settings if it is a well-formed document whose fields are all `Known`: they have
a known name and a value that goes with it.  Integers and booleans are all the values there are,
so such a document is read for what it is (`Toml.document?_eq_some_iff`).  The settings then are
what the fields say, and defaults for the rest (`Given`), in whatever order the fields come, since
no name comes twice (`ofFields_given`).

A poll interval of zero is refused after that, and everything else before
(`parse_accepts_valid_settings`).  Only a byte order mark at the front is read over, though the
format has none (`marked_text_is_read`).
-/

namespace ChangeWatch.Settings

open Toml

variable {s s' : Settings} {text : List Char} {fields : Fields} {field : List Char × Value}
  {n : Nat}

/-! ### Known fields -/

/-- A field with a known name, and a value that the name may have. -/
inductive Known : List Char × Value → Prop
  | delay {n : Nat} : n < 2 ^ 63 → Known (delayField, .integer n)
  | depth {n : Nat} : n < 2 ^ 63 → Known (depthField, .integer n)
  | poll {n : Nat} : n < 2 ^ 63 → Known (pollField, .integer n)
  | compare (b : Bool) : Known (compareField, .boolean b)

/-- All fields are known, and have values that go with them. -/
def Sound (fields : Fields) : Prop :=
  ∀ f ∈ fields, Known f

/-- A setting is what the field of a name gives it, or what it is by default. -/
structure Gives {α β : Type} (fields : Fields) (name : List Char) (value : α → Value)
    (made : α → β) (unsaid given : β) : Prop where
  said : ∀ a, (name, value a) ∈ fields → given = made a
  default : (∀ v, (name, v) ∉ fields) → given = unsaid

/-- The settings that fields give. -/
structure Given (fields : Fields) (s : Settings) : Prop where
  delay : Gives fields delayField (fun n : Nat => .integer n) id default.delayMs s.delayMs
  depth : Gives fields depthField (fun n : Nat => .integer n) id default.maxDepth s.maxDepth
  poll : Gives fields pollField (fun n : Nat => .integer n) some none s.pollIntervalMs
  compare : Gives fields compareField .boolean id default.compareContents s.compareContents

theorem integerLimit_eq : (integerLimit : Nat) = 2 ^ 63 := by decide

theorem Known.simple (h : Known field) : field.2.Simple ∧ field.2.Fits := by
  have hfits : ∀ {n : Nat}, n < 2 ^ 63 → (Value.integer n).Fits := by
    intro n hn
    rw [← integerLimit_eq] at hn
    exact ⟨by omega, by omega⟩
  cases h with
  | delay hn => exact ⟨.integer _, hfits hn⟩
  | depth hn => exact ⟨.integer _, hfits hn⟩
  | poll hn => exact ⟨.integer _, hfits hn⟩
  | compare b => exact ⟨.boolean b, trivial⟩

theorem Known.integer (h : Known field) (hname : field.1 ≠ compareField) :
    ∃ n : Nat, field.2 = .integer n := by
  cases h with
  | compare b => exact absurd rfl hname
  | _ => exact ⟨_, rfl⟩

theorem Sound.simple (h : Sound fields) : fields.Simple := fun f hf => (h f hf).simple

/-! ### One field -/

theorem natural_eq_ok_iff {wanted : String} {v : Value} :
    natural wanted v = .ok n ↔ v = .integer n := by
  constructor
  · intro h
    unfold natural at h
    split at h
    · next m =>
      split at h
      · next hm =>
        obtain rfl := Except.ok.inj h
        rw [Int.toNat_of_nonneg hm]
      · exact absurd h (by simp)
    · exact absurd h (by simp)
  · rintro rfl
    unfold natural
    dsimp only
    rw [if_pos (Int.natCast_nonneg n), Int.toNat_natCast]

theorem truth_eq_ok_iff {v : Value} {b : Bool} : truth v = .ok b ↔ v = .boolean b := by
  unfold truth
  split
  · simp
  · next h => exact iff_of_false (by simp) fun hv => h b hv

/-- A field that is taken is known. -/
theorem known_of_withField (h : s.withField field = .ok s') (hfits : field.2.Fits) :
    Known field := by
  have hnatural : ∀ {wanted : String} {n : Nat}, natural wanted field.2 = .ok n →
      field.2 = .integer n ∧ n < 2 ^ 63 := by
    intro wanted n hn
    exact ⟨natural_eq_ok_iff.mp hn, integerLimit_eq ▸ natural_lt hfits hn⟩
  obtain ⟨name, v⟩ := field
  unfold Settings.withField at h
  dsimp only at h hnatural
  split at h
  · next hname =>
    obtain ⟨n, hn, -⟩ := exists_of_map_eq_ok h
    obtain ⟨rfl, hlt⟩ := hnatural hn
    exact hname ▸ .delay hlt
  split at h
  · next hname =>
    obtain ⟨n, hn, -⟩ := exists_of_map_eq_ok h
    obtain ⟨rfl, hlt⟩ := hnatural hn
    exact hname ▸ .depth hlt
  split at h
  · next hname =>
    obtain ⟨n, hn, -⟩ := exists_of_map_eq_ok h
    obtain ⟨rfl, hlt⟩ := hnatural hn
    exact hname ▸ .poll hlt
  split at h
  · next hname =>
    obtain ⟨b, hb, -⟩ := exists_of_map_eq_ok h
    obtain rfl := truth_eq_ok_iff.mp hb
    exact hname ▸ .compare b
  · exact absurd h (by simp)

section Gives

variable {α β : Type} {name other : List Char} {value : α → Value} {made : α → β}
  {unsaid given : β} {v : Value}

theorem Gives.nil (unsaid : β) : Gives [] name value made unsaid unsaid :=
  ⟨fun _ hmem => absurd hmem List.not_mem_nil, fun _ => rfl⟩

/-- A field of another name gives nothing. -/
theorem Gives.concat_other (h : Gives fields name value made unsaid given) (hne : name ≠ other) :
    Gives (fields ++ [(other, v)]) name value made unsaid given := by
  refine ⟨fun a hmem => ?_, fun habsent => ?_⟩
  · rcases List.mem_append.mp hmem with hmem | hmem
    · exact h.said a hmem
    · exact absurd (Prod.mk.inj (List.mem_singleton.mp hmem)).1 hne
  · exact h.default fun w hmem => habsent w (List.mem_append_left _ hmem)

/-- A field of a new name gives its value. -/
theorem Gives.concat_said (hnew : name ∉ fields.map (·.1)) (hvalue : Function.Injective value)
    (a : α) : Gives (fields ++ [(name, value a)]) name value made unsaid (made a) := by
  refine ⟨fun b hmem => ?_, fun habsent => ?_⟩
  · rcases List.mem_append.mp hmem with hmem | hmem
    · exact absurd (List.mem_map_of_mem hmem) hnew
    · rw [hvalue (Prod.mk.inj (List.mem_singleton.mp hmem)).2]
  · exact absurd (List.mem_append_right _ List.mem_cons_self) (habsent (value a))

end Gives

/-! ### All fields -/

theorem given_nil : Given [] default :=
  ⟨.nil _, .nil _, .nil _, .nil _⟩

theorem integer_injective : Function.Injective fun n : Nat => Value.integer n :=
  fun _ _ h => Int.ofNat_inj.mp (Value.integer.inj h)

theorem map_natural (wanted : String) (f : Nat → Settings) (n : Nat) :
    (natural wanted (.integer n)).map f = .ok (f n) := by
  rw [natural_eq_ok_iff.mpr rfl]
  rfl

/-- A known field of a new name is taken, and gives its value. -/
theorem Given.concat (h : Given fields s) (hknown : Known field)
    (hnew : field.1 ∉ fields.map (·.1)) :
    ∃ s', s.withField field = .ok s' ∧ Given (fields ++ [field]) s' := by
  cases hknown with
  | @delay n _ =>
    have htaken : s.withField (delayField, .integer n) = .ok { s with delayMs := n } :=
      map_natural "u64" (fun n => { s with delayMs := n }) n
    exact ⟨_, htaken, .concat_said hnew integer_injective n,
      h.depth.concat_other (by decide), h.poll.concat_other (by decide),
      h.compare.concat_other (by decide)⟩
  | @depth n _ =>
    have htaken : s.withField (depthField, .integer n) = .ok { s with maxDepth := n } :=
      map_natural "usize" (fun n => { s with maxDepth := n }) n
    exact ⟨_, htaken, h.delay.concat_other (by decide),
      .concat_said hnew integer_injective n, h.poll.concat_other (by decide),
      h.compare.concat_other (by decide)⟩
  | @poll n _ =>
    have htaken : s.withField (pollField, .integer n) = .ok { s with pollIntervalMs := some n } :=
      map_natural "u64" (fun n => { s with pollIntervalMs := some n }) n
    exact ⟨_, htaken, h.delay.concat_other (by decide), h.depth.concat_other (by decide),
      .concat_said hnew integer_injective n, h.compare.concat_other (by decide)⟩
  | compare b =>
    exact ⟨{ s with compareContents := b }, rfl, h.delay.concat_other (by decide),
      h.depth.concat_other (by decide), h.poll.concat_other (by decide),
      .concat_said hnew (fun _ _ h => Value.boolean.inj h) b⟩

/-- Known fields of different names are taken, and what they say is given. -/
theorem ofFields_given (hsound : Sound fields) (hnodup : (fields.map (·.1)).Nodup) :
    ∃ s, ofFields fields = .ok s ∧ Given fields s := by
  induction fields using List.reverseRecOn with
  | nil => exact ⟨default, rfl, given_nil⟩
  | append_singleton fields field ih =>
    obtain ⟨hfields, hfield⟩ := List.forall_mem_append.mp hsound
    rw [List.map_append, List.nodup_append] at hnodup
    obtain ⟨hnodup, -, hdisjoint⟩ := hnodup
    have hnew : field.1 ∉ fields.map (·.1) :=
      fun hmem => hdisjoint _ hmem _ (List.mem_singleton_self _) rfl
    obtain ⟨s, hs, hgiven⟩ := ih hfields hnodup
    obtain ⟨s', hs', hgiven'⟩ := hgiven.concat (hfield _ List.mem_cons_self) hnew
    refine ⟨s', ?_, hgiven'⟩
    unfold ofFields at hs ⊢
    rw [List.foldlM_append, hs]
    show (s.withField field).bind pure = _
    rw [hs']
    rfl

/-- Fields that are taken are known. -/
theorem sound_of_foldlM (hfits : fields.Fit) (h : fields.foldlM withField s = .ok s') :
    Sound fields := by
  induction fields generalizing s with
  | nil => exact fun f hf => absurd hf List.not_mem_nil
  | cons field more ih =>
    obtain ⟨hfield, hmore⟩ := List.forall_mem_cons.mp hfits
    rw [List.foldlM_cons] at h
    cases hnext : s.withField field with
    | error problem =>
      rw [hnext] at h
      exact absurd h (by simp [bind, Except.bind])
    | ok next =>
      rw [hnext] at h
      exact List.forall_mem_cons.mpr ⟨known_of_withField hnext hfield, ih hmore h⟩

/-- A poll interval of zero is given by the field alone. -/
theorem Given.poll_eq_zero_iff (hsound : Sound fields) (h : Given fields s) :
    s.pollIntervalMs = some 0 ↔ (pollField, .integer 0) ∈ fields := by
  constructor
  · intro hzero
    by_cases hsaid : ∃ v, (pollField, v) ∈ fields
    · obtain ⟨v, hmem⟩ := hsaid
      obtain ⟨n, hn⟩ := (hsound _ hmem).integer (show pollField ≠ compareField by decide)
      obtain rfl : v = .integer n := hn
      have hgiven := h.poll.said n hmem
      obtain rfl := Option.some.inj (hgiven.symm.trans hzero)
      exact hmem
    · have hnone := h.poll.default fun v hmem => hsaid ⟨v, hmem⟩
      exact absurd (hnone.symm.trans hzero) (by simp)
  · exact h.poll.said 0

/-! ### Texts -/

/-- A text that is read is a well-formed document of known fields, which it gives. -/
theorem wellFormed_of_ofText (h : ofText text = .ok s) :
    ∃ fields, WellFormed (dropMark text) fields ∧ Sound fields ∧ Given fields s := by
  unfold ofText at h
  split at h
  · exact absurd h (by simp)
  · next fields hdocument =>
    have hsound := sound_of_foldlM (document?_fit hdocument) h
    obtain ⟨s', hs', hgiven⟩ :=
      ofFields_given hsound (nodup_of_document? hsound.simple hdocument)
    obtain rfl := Except.ok.inj (hs'.symm.trans h)
    exact ⟨fields, (Toml.document?_eq_some_iff hsound.simple).mp hdocument, hsound, hgiven⟩

/-- A well-formed document of known fields is read, and gives what they say. -/
theorem ofText_of_wellFormed (hwell : WellFormed (dropMark text) fields) (hsound : Sound fields) :
    ∃ s, ofText text = .ok s ∧ Given fields s := by
  have hdocument := (Toml.document?_eq_some_iff hsound.simple).mpr hwell
  unfold ofText
  rw [hdocument]
  exact ofFields_given hsound (nodup_of_document? hsound.simple hdocument)

theorem parse_of_ok (h : ofText text = .ok s) : parse text = s.check := by
  unfold parse
  rw [h]

theorem parse_of_error {problem : SettingsProblem} (h : ofText text = .error problem) :
    parse text = .error (.settings problem) := by
  unfold parse
  rw [h]

/-- What becomes of a text: settings, of which one sort is refused, or none. -/
theorem parse_cases (text : List Char) :
    (∃ s, ofText text = .ok s ∧ s.pollIntervalMs ≠ some 0 ∧ parse text = .ok s) ∨
    (∃ s, ofText text = .ok s ∧ s.pollIntervalMs = some 0 ∧
      parse text = .error .zeroPollInterval) ∨
    (∀ s, ofText text ≠ .ok s) ∧ ∃ problem, parse text = .error (.settings problem) := by
  cases h : ofText text with
  | error problem => exact Or.inr (Or.inr ⟨by simp, problem, parse_of_error h⟩)
  | ok s =>
    by_cases hpoll : s.pollIntervalMs = some 0
    · exact Or.inr (Or.inl ⟨s, rfl, hpoll, (parse_of_ok h).trans (if_pos hpoll)⟩)
    · exact Or.inl ⟨s, rfl, hpoll, (parse_of_ok h).trans (if_neg hpoll)⟩

/-- Whatever text is given, less a byte order mark at its front.  It is read as settings exactly
if it is a well-formed document whose fields are known, with natural numbers below two to the power
of 63 and booleans for values as their names have it, and ask for no poll interval of zero.  Every
setting is then as its field says, or as it is by default, whatever the order of the fields.  A text
that is refused as misconfigured is one that asks for a poll interval of zero and is right
otherwise, and every other text is refused as no settings. -/
theorem parse_accepts_valid_settings (text : List Char) :
    ((∃ s, parse text = .ok s) ↔
      ∃ fields, WellFormed (dropMark text) fields ∧ Sound fields ∧
        (pollField, .integer 0) ∉ fields) ∧
    (∀ fields s, WellFormed (dropMark text) fields → Sound fields → parse text = .ok s →
      Given fields s) ∧
    ((∃ e, parse text = .error e ∧ e.errorClass = .config) ↔
      ∃ fields, WellFormed (dropMark text) fields ∧ Sound fields ∧
        (pollField, .integer 0) ∈ fields) ∧
    ((∃ e, parse text = .error e ∧ e.errorClass = .settings) ↔
      ¬∃ fields, WellFormed (dropMark text) fields ∧ Sound fields) := by
  -- whatever is read is what the fields of each well-formed reading give
  have hgives : ∀ {s}, ofText text = .ok s → ∀ fields, WellFormed (dropMark text) fields →
      Sound fields → Given fields s := by
    intro s hread fields hwell hsound
    obtain ⟨s', hread', hgiven⟩ := ofText_of_wellFormed hwell hsound
    obtain rfl := Except.ok.inj (hread'.symm.trans hread)
    exact hgiven
  rcases parse_cases text with ⟨s, hread, hpoll, hparse⟩ | ⟨s, hread, hpoll, hparse⟩ |
    ⟨hread, problem, hparse⟩
  · obtain ⟨fields, hwell, hsound, hgiven⟩ := wellFormed_of_ofText hread
    rw [hparse]
    refine ⟨iff_of_true ⟨s, rfl⟩ ⟨fields, hwell, hsound, ?_⟩, ?_, iff_of_false (by simp) ?_,
      iff_of_false (by simp) fun hnone => hnone ⟨fields, hwell, hsound⟩⟩
    · exact fun hmem => hpoll ((hgiven.poll_eq_zero_iff hsound).mpr hmem)
    · intro fields s' hwell hsound heq
      obtain rfl := Except.ok.inj heq
      exact hgives hread fields hwell hsound
    · rintro ⟨fields, hwell, hsound, hmem⟩
      exact hpoll (((hgives hread fields hwell hsound).poll_eq_zero_iff hsound).mpr hmem)
  · obtain ⟨fields, hwell, hsound, hgiven⟩ := wellFormed_of_ofText hread
    rw [hparse]
    refine ⟨iff_of_false (by simp) ?_, fun _ _ _ _ heq => absurd heq (by simp),
      iff_of_true ⟨_, rfl, rfl⟩ ⟨fields, hwell, hsound, ?_⟩, iff_of_false ?_ fun hnone =>
        hnone ⟨fields, hwell, hsound⟩⟩
    · rintro ⟨fields, hwell, hsound, hnot⟩
      exact hnot (((hgives hread fields hwell hsound).poll_eq_zero_iff hsound).mp hpoll)
    · exact (hgiven.poll_eq_zero_iff hsound).mp hpoll
    · rintro ⟨e, heq, hclass⟩
      obtain rfl := Except.error.inj heq
      exact absurd hclass (by decide)
  · have hnone : ¬∃ fields, WellFormed (dropMark text) fields ∧ Sound fields := by
      rintro ⟨fields, hwell, hsound⟩
      obtain ⟨s, hs, -⟩ := ofText_of_wellFormed hwell hsound
      exact hread s hs
    rw [hparse]
    refine ⟨iff_of_false (by simp) ?_, fun _ _ _ _ heq => absurd heq (by simp),
      iff_of_false ?_ ?_, iff_of_true ⟨_, rfl, rfl⟩ hnone⟩
    · exact fun ⟨fields, hwell, hsound, _⟩ => hnone ⟨fields, hwell, hsound⟩
    · rintro ⟨e, heq, hclass⟩
      obtain rfl := Except.error.inj heq
      exact absurd hclass (by simp [WatchError.errorClass])
    · exact fun ⟨fields, hwell, hsound, _⟩ => hnone ⟨fields, hwell, hsound⟩

/-- A quoted name, a number in base sixteen, a sign, comments and either line break are read for
what they are; with a poll interval of zero behind them the text is misconfigured, and with a name
given twice it is no text of settings. -/
theorem spelled_settings_are_read :
    let text := "# depth\n\"max_depth\" = 0x1_0\r\n\tdelay_ms=+5 # ms".toList
    let polled := text ++ "\npoll_interval_ms = 0".toList
    let repeated := text ++ "\nmax_depth = 16".toList
    let fields : Fields := [(depthField, .integer 16), (delayField, .integer 5)]
    WellFormed text fields ∧ Sound fields ∧ parse text = .ok ⟨5, 16, none, false⟩ ∧
    Given fields ⟨5, 16, none, false⟩ ∧
    (∃ fields, WellFormed polled fields ∧ Sound fields ∧ (pollField, .integer 0) ∈ fields) ∧
    ¬∃ fields, WellFormed repeated fields ∧ Sound fields := by
  intro text polled repeated fields
  have hsound : Sound fields := List.forall_mem_cons.mpr
    ⟨.depth (n := 16) (by decide), List.forall_mem_singleton.mpr (.delay (n := 5) (by decide))⟩
  have hdocument : Toml.document? text = some fields := rfl
  have hwell : WellFormed text fields := (Toml.document?_eq_some_iff hsound.simple).mp hdocument
  have hparse : parse text = .ok ⟨5, 16, none, false⟩ := by decide +kernel
  obtain ⟨-, hgiven, -⟩ := parse_accepts_valid_settings text
  obtain ⟨-, -, hconfig, -⟩ := parse_accepts_valid_settings polled
  obtain ⟨-, -, -, hsettings⟩ := parse_accepts_valid_settings repeated
  exact ⟨hwell, hsound, hparse, hgiven fields _ hwell hsound hparse,
    hconfig.mp ⟨.zeroPollInterval, by decide +kernel, rfl⟩,
    hsettings.mp ⟨.settings .malformed, by decide +kernel, rfl⟩⟩

/-- A text that begins with a byte order mark is no well-formed document as it stands, but it is
read as settings. -/
theorem marked_text_is_read :
    let text := "\uFEFFdelay_ms = 5".toList
    parse text = .ok ⟨5, 0, none, false⟩ ∧ ∀ fields, ¬WellFormed text fields := by
  intro text
  refine ⟨by decide +kernel, fun fields hwell => ?_⟩
  obtain ⟨lines, hlines, -⟩ := hwell
  exact absurd hlines.dropMark (by decide)

end ChangeWatch.Settings
