import ChangeWatch.Proofs.Toml.Integers
import ChangeWatch.Proofs.Toml.Written
import ChangeWatch.Settings.Load
import Mathlib.Algebra.Group.Nat.Defs

/-!
# Settings as a document, and back

Settings can be written exactly if their numbers fit 64 bits with sign (`Fit`,
`document?_isSome_iff`).  What is written is a document of lines, one for each field, and is
read back field by field, so that no default is left in place (`ofFields_written`).

What is read fits, since the integers of a document do (`fit_of_parse`); so settings that were
read can always be written, and reading this gives them again (`settings_round_trip`).
-/

namespace ChangeWatch.Settings

open Toml Toml.Grammar

variable {s : Settings} {text : List Char} {n : Nat}

/-- The numbers of the settings fit 64 bits with sign. -/
structure Fit (s : Settings) : Prop where
  delay : s.delayMs < integerLimit
  depth : s.maxDepth < integerLimit
  poll : ∀ n, s.pollIntervalMs = some n → n < integerLimit

/-! ### Writing -/

/-- The fields of the settings, each with the text of its value and the value. -/
def written (s : Settings) : List (List Char × List Char × Value) :=
  (delayField, Nat.toDigits 10 s.delayMs, .integer s.delayMs) ::
    (depthField, Nat.toDigits 10 s.maxDepth, .integer s.maxDepth) ::
    ((s.pollIntervalMs.map fun n => (pollField, Nat.toDigits 10 n, .integer n)).toList ++
      [(compareField, truthWord s.compareContents, .boolean s.compareContents)])

theorem fieldLine_eq (key value : List Char) : fieldLine key value = line key value := by
  simp [fieldLine, line]

theorem numeral?_eq_some_iff :
    numeral? n = some text ↔ n < integerLimit ∧ Nat.toDigits 10 n = text := by
  unfold numeral?
  split
  · next h => simp [h]
  · next h => simp [h]

/-- Settings are written line by line, if their numbers fit. -/
theorem document?_eq_some_iff :
    s.document? = some text ↔ s.Fit ∧ (s.written.flatMap fun f => line f.1 f.2.1) = text := by
  obtain ⟨delay, depth, poll, compare⟩ := s
  constructor
  · intro h
    cases poll with
    | none =>
      simp only [document?, Option.bind_eq_bind, Option.bind_some, Option.bind_eq_some_iff,
        numeral?_eq_some_iff] at h
      obtain ⟨-, ⟨hdelay, rfl⟩, -, ⟨hdepth, rfl⟩, h⟩ := h
      refine ⟨⟨hdelay, hdepth, fun n hn => absurd hn (by simp)⟩, ?_⟩
      rw [← Option.some.inj h]
      simp [written, fieldLine_eq]
    | some n =>
      simp only [document?, Option.bind_eq_bind, Option.bind_eq_some_iff, Option.map_eq_some_iff,
        numeral?_eq_some_iff] at h
      obtain ⟨-, ⟨hdelay, rfl⟩, -, ⟨hdepth, rfl⟩, -, ⟨-, ⟨hpoll, rfl⟩, rfl⟩, h⟩ := h
      refine ⟨⟨hdelay, hdepth, fun m hm => by rwa [← Option.some.inj hm]⟩, ?_⟩
      rw [← Option.some.inj h]
      simp [written, fieldLine_eq]
  · rintro ⟨hfit, rfl⟩
    have hdelay : numeral? delay = some _ := if_pos hfit.delay
    have hdepth : numeral? depth = some _ := if_pos hfit.depth
    cases poll with
    | none => simp [document?, hdelay, hdepth, written, fieldLine_eq]
    | some n =>
      have hpoll : numeral? n = some _ := if_pos (hfit.poll n rfl)
      simp [document?, hdelay, hdepth, hpoll, written, fieldLine_eq]

theorem document?_isSome_iff : s.document?.isSome ↔ s.Fit := by
  rw [Option.isSome_iff_exists]
  constructor
  · rintro ⟨text, h⟩
    exact (document?_eq_some_iff.mp h).1
  · exact fun hfit => ⟨_, document?_eq_some_iff.mpr ⟨hfit, rfl⟩⟩

/-! ### Reading -/

theorem keyPart_fields :
    ∀ name ∈ [delayField, depthField, pollField, compareField], KeyPart name name := by
  intro name hname
  have hchars : [delayField, depthField, pollField, compareField].all
      (fun name => !name.isEmpty && name.all isBareChar) = true := by decide
  obtain ⟨hsome, hall⟩ := Bool.and_eq_true_iff.mp (List.all_eq_true.mp hchars name hname)
  refine .bare ?_ (List.all_eq_true.mp hall)
  rintro rfl
  exact absurd hsome (by simp)

theorem spelled_numeral {name : List Char} (hname : KeyPart name name) (h : n < integerLimit) :
    Spelled (name, Nat.toDigits 10 n, .integer n) :=
  ⟨hname, .integer (integer_toDigits n), .integer n, by omega, by omega⟩

theorem spelled_truthWord {name : List Char} (hname : KeyPart name name) (b : Bool) :
    Spelled (name, truthWord b, .boolean b) := by
  cases b with
  | false => exact ⟨hname, .no, .boolean false, trivial⟩
  | true => exact ⟨hname, .yes, .boolean true, trivial⟩

theorem spelled_written (h : s.Fit) : ∀ f ∈ s.written, Spelled f := by
  intro f hf
  rcases List.mem_cons.mp hf with rfl | hf
  · exact spelled_numeral (keyPart_fields _ (by simp)) h.delay
  rcases List.mem_cons.mp hf with rfl | hf
  · exact spelled_numeral (keyPart_fields _ (by simp)) h.depth
  rcases List.mem_append.mp hf with hf | hf
  · obtain ⟨n, hn, rfl⟩ := Option.map_eq_some_iff.mp (Option.mem_toList.mp hf)
    exact spelled_numeral (keyPart_fields _ (by simp)) (h.poll n hn)
  · obtain rfl := List.mem_singleton.mp hf
    exact spelled_truthWord (keyPart_fields _ (by simp)) _

theorem written_names_nodup (s : Settings) : (s.written.map (·.1)).Nodup := by
  obtain ⟨delay, depth, poll, compare⟩ := s
  have hnames : [delayField, depthField, pollField, compareField].Nodup := by decide
  cases poll with
  | none => exact hnames.sublist (by simp [written])
  | some n => exact hnames

/-- Every field that has no default value is written, so all of them are read back. -/
theorem ofFields_written (s : Settings) :
    ofFields (s.written.map fun f => (f.1, f.2.2)) = .ok s := by
  obtain ⟨delay, depth, poll, compare⟩ := s
  cases poll with
  | none => rfl
  | some n => rfl

theorem parse_document? (hpoll : s.pollIntervalMs ≠ some 0) (h : s.document? = some text) :
    parse text = .ok s := by
  obtain ⟨hfit, rfl⟩ := document?_eq_some_iff.mp h
  have hread := document?_written (spelled_written hfit) s.written_names_nodup
  have hcheck : s.check = .ok s := if_neg hpoll
  unfold parse ofText
  rw [hread]
  dsimp only
  rw [ofFields_written]
  exact hcheck

/-! ### What is read fits -/

theorem natural_lt {wanted : String} {v : Value} (hv : v.Fits) (h : natural wanted v = .ok n) :
    n < integerLimit := by
  unfold natural at h
  split at h
  · next m =>
    obtain ⟨-, hm⟩ := hv
    split at h
    · obtain rfl := Except.ok.inj h
      omega
    · exact absurd h (by simp)
  · exact absurd h (by simp)

theorem exists_of_map_eq_ok {ε α β : Type} {x : Except ε α} {f : α → β} {b : β}
    (h : x.map f = .ok b) : ∃ a, x = .ok a ∧ f a = b := by
  cases x with
  | error problem => exact absurd h (by simp [Except.map])
  | ok a => exact ⟨a, rfl, Except.ok.inj h⟩

theorem Fit.withField {s' : Settings} {field : List Char × Value} (hs : s.Fit)
    (hfield : field.2.Fits) (h : s.withField field = .ok s') : s'.Fit := by
  unfold Settings.withField at h
  dsimp only at h
  split at h
  · obtain ⟨n, hn, rfl⟩ := exists_of_map_eq_ok h
    exact ⟨natural_lt hfield hn, hs.depth, hs.poll⟩
  split at h
  · obtain ⟨n, hn, rfl⟩ := exists_of_map_eq_ok h
    exact ⟨hs.delay, natural_lt hfield hn, hs.poll⟩
  split at h
  · obtain ⟨n, hn, rfl⟩ := exists_of_map_eq_ok h
    refine ⟨hs.delay, hs.depth, fun m hm => ?_⟩
    obtain rfl := Option.some.inj hm
    exact natural_lt hfield hn
  split at h
  · obtain ⟨b, -, rfl⟩ := exists_of_map_eq_ok h
    exact ⟨hs.delay, hs.depth, hs.poll⟩
  · exact absurd h (by simp)

theorem Fit.withFields {fields : Fields} {s' : Settings} (hs : s.Fit) (hfields : fields.Fit)
    (h : fields.foldlM Settings.withField s = .ok s') : s'.Fit := by
  induction fields generalizing s with
  | nil =>
    obtain rfl := Except.ok.inj h
    exact hs
  | cons field more ih =>
    obtain ⟨hfield, hmore⟩ := List.forall_mem_cons.mp hfields
    rw [List.foldlM_cons] at h
    cases hnext : s.withField field with
    | error problem =>
      rw [hnext] at h
      exact absurd h (by simp [bind, Except.bind])
    | ok next =>
      rw [hnext] at h
      exact ih (hs.withField hfield hnext) hmore h

theorem fit_default : default.Fit :=
  ⟨by decide, by decide, fun _ hn => absurd hn (by simp [default])⟩

theorem fit_of_parse (h : parse text = .ok s) : s.Fit ∧ s.pollIntervalMs ≠ some 0 := by
  unfold parse ofText at h
  cases hread : Toml.document? text with
  | none =>
    rw [hread] at h
    exact absurd h (by simp)
  | some fields =>
    rw [hread] at h
    dsimp only at h
    cases hgiven : ofFields fields with
    | error problem =>
      rw [hgiven] at h
      exact absurd h (by simp)
    | ok given =>
      rw [hgiven] at h
      dsimp only [check] at h
      split at h
      · exact absurd h (by simp)
      · next hpoll =>
        obtain rfl := Except.ok.inj h
        exact ⟨fit_default.withFields (document?_fit hread) hgiven, hpoll⟩

/-! ### The round trip -/

/-- Settings that do not ask for a poll interval of zero can be written exactly if their numbers
fit 64 bits with sign, and what is written reads as these settings.  Settings that were read can
be written, and read again from this. -/
theorem settings_round_trip :
    (∀ s : Settings, s.pollIntervalMs ≠ some 0 →
      (s.document?.isSome ↔ s.delayMs < 2 ^ 63 ∧ s.maxDepth < 2 ^ 63 ∧
        ∀ n, s.pollIntervalMs = some n → n < 2 ^ 63) ∧
      ∀ text, s.document? = some text → parse text = .ok s) ∧
    ∀ text s, parse text = .ok s → ∃ text', s.document? = some text' ∧ parse text' = .ok s := by
  have hlimit : integerLimit = 2 ^ 63 := by decide
  refine ⟨fun s hpoll => ⟨?_, fun text h => parse_document? hpoll h⟩, fun text s h => ?_⟩
  · rw [document?_isSome_iff, ← hlimit]
    exact ⟨fun h => ⟨h.delay, h.depth, h.poll⟩, fun h => ⟨h.1, h.2.1, h.2.2⟩⟩
  · obtain ⟨hfit, hpoll⟩ := fit_of_parse h
    obtain ⟨text', htext⟩ := Option.isSome_iff_exists.mp (document?_isSome_iff.mpr hfit)
    exact ⟨text', htext, parse_document? hpoll htext⟩

/-- Settings with all four fields set are written in four lines, and read back from them; with
a number of two to the power of 63 they cannot be written. -/
theorem four_fields_round_trip :
    let s : Settings := ⟨50, 3, some 250, true⟩
    let text := ("delay_ms = 50\nmax_depth = 3\npoll_interval_ms = 250\n" ++
      "compare_contents = true\n").toList
    s.document? = some text ∧ parse text = .ok s ∧
    (∃ text', s.document? = some text' ∧ parse text' = .ok s) ∧
    ¬({ s with maxDepth := 2 ^ 63 } : Settings).document?.isSome := by
  intro s text
  obtain ⟨hwrite, hread⟩ := settings_round_trip
  have htext : s.document? = some text := by decide +kernel
  have hparse : parse text = .ok s := (hwrite s (by decide)).2 text htext
  refine ⟨htext, hparse, hread text s hparse, fun h => ?_⟩
  obtain ⟨-, hdepth, -⟩ := (hwrite { s with maxDepth := 2 ^ 63 } (by decide)).1.mp h
  exact absurd hdepth (by decide)

end ChangeWatch.Settings
