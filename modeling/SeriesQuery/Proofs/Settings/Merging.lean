import SeriesQuery.Proofs.Fallible
import SeriesQuery.Settings.File

/-!
# Merging settings

Seven variables of the environment replace one setting each.  What the settings of a
file become is known by its parts: under every variable that is set to something of the
right form stands what it is set to, and all else stands as the file gives it.

The settings of a file are judged before any is replaced.  So a file at fault is refused
although the environment mends it, and a sound one is taken although the environment
spoils it.

## Main results

* `Settings.merges_iff`: merged settings are those with the variables, and no others.
* `Settings.judged_before_merging`: what comes of a file, and when that is the verdict
  on the merged settings.
-/

namespace SeriesQuery

/-! ## Variables -/

/-- A variable of the environment that replaces a setting. -/
inductive Variable where
  | url | readTimeout | host | port | statementTimeout | level | format
  deriving DecidableEq

namespace Variable

/-- The name of a variable in the environment. -/
def name : Variable → String
  | url => "MQL_KAIROSDB_URL"
  | readTimeout => "MQL_KAIROSDB_READ_TIMEOUT_SECS"
  | host => "MQL_API_HOST"
  | port => "MQL_API_PORT"
  | statementTimeout => "MQL_STATEMENT_TIMEOUT_SECS"
  | level => "MQL_LOG_LEVEL"
  | format => "MQL_LOG_FORMAT"

/-- The setting that a variable replaces: a text or a number. -/
def value (s : Settings) : Variable → String ⊕ Nat
  | url => .inl s.backend.url
  | readTimeout => .inr s.backend.readTimeoutSecs
  | host => .inl s.service.host
  | port => .inr s.service.port
  | statementTimeout => .inr s.statementTimeoutSecs
  | level => .inl s.log.level
  | format => .inl s.log.format

/-- The largest number that a variable can be set to, if it is one for numbers. -/
def limit? : Variable → Option Nat
  | readTimeout => some largest64
  | port => some largest16
  | statementTimeout => some largest64
  | _ => none

/-- What a variable gives when it is set to a text: any text, or a number of the right
size. -/
def read? (v : Variable) (text : String) : Option (String ⊕ Nat) :=
  match v.limit? with
  | some limit => (Decimal.readNat? limit text).map .inr
  | none => some (.inl text)

/-- What something can be done with: any setting but one of three is judged sound. -/
def accepts : Variable → String ⊕ Nat → Prop
  | url, .inl text => text.startsWith "http://" = true ∨
      text.startsWith "https://" = true
  | statementTimeout, .inr secs => secs ≠ 0
  | format, .inl text => text = "pretty" ∨ text = "json"
  | _, _ => True

end Variable

namespace Settings

open Variable

variable {s t m o : Settings} {lookup : String → Option String} {path text : String}

/-- The settings that no variable replaces. -/
def kept (s : Settings) : List String × Nat × Option String :=
  (s.service.origins, s.service.maxBodySize, s.log.file)

/-- Settings are known by those that variables replace and the others. -/
theorem eq_of_values (hvalue : ∀ v : Variable, v.value s = v.value t)
    (hkept : s.kept = t.kept) : s = t := by
  obtain ⟨⟨url, secs⟩, ⟨host, port, origins, size⟩, timeout, ⟨level, format, file⟩⟩ := s
  obtain ⟨⟨url', secs'⟩, ⟨host', port', origins', size'⟩, timeout',
      ⟨level', format', file'⟩⟩ := t
  cases hvalue .url
  cases hvalue .readTimeout
  cases hvalue .host
  cases hvalue .port
  cases hvalue .statementTimeout
  cases hvalue .level
  cases hvalue .format
  cases hkept
  rfl

/-! ## Merging -/

/-- Some settings are others in which every variable that is set to something of the
right form has replaced its own setting and no other. -/
structure Merges (lookup : String → Option String) (s m : Settings) : Prop where
  value : ∀ v : Variable, v.value m = ((lookup v.name).bind v.read?).getD (v.value s)
  kept : m.kept = s.kept

private theorem getD_text (given : Option String) (default : String) :
    (.inl (given.getD default) : String ⊕ Nat) =
      (given.bind fun text => some (.inl text)).getD (.inl default) := by
  cases given <;> rfl

private theorem numberIn_eq (limit : Nat) (given : Option String) (default : Nat) :
    (.inr (numberIn limit given default) : String ⊕ Nat) =
      (given.bind fun text => (Decimal.readNat? limit text).map .inr).getD
      (.inr default) := by
  unfold numberIn
  cases given with
  | none => rfl
  | some text =>
      rw [Option.bind_some, Option.bind_some]
      cases Decimal.readNat? limit text <;> rfl

private theorem merges_withVariables (s : Settings) (lookup : String → Option String) :
    Merges lookup s (s.withVariables lookup) where
  value v := by
    cases v with
    | url => exact getD_text _ _
    | readTimeout => exact numberIn_eq _ _ _
    | host => exact getD_text _ _
    | port => exact numberIn_eq _ _ _
    | statementTimeout => exact numberIn_eq _ _ _
    | level => exact getD_text _ _
    | format => exact getD_text _ _
  kept := rfl

/-- Merged settings are those with the variables, and no others. -/
theorem merges_iff : Merges lookup s m ↔ m = s.withVariables lookup := by
  have hmerges := merges_withVariables s lookup
  constructor
  · intro h
    exact eq_of_values (fun v => (h.value v).trans (hmerges.value v).symm)
      (h.kept.trans hmerges.kept.symm)
  · rintro rfl
    exact hmerges

/-! ## Judging -/

/-- Settings are sound just if each is by itself. -/
theorem fault?_eq_none_iff : s.fault? = none ↔
    ∀ v : Variable, v.accepts (v.value s) := by
  unfold fault?
  constructor
  · intro h v
    split at h
    · cases h
    · rename_i hurl
      split at h
      · cases h
      · rename_i htimeout
        split at h
        · cases h
        · rename_i hformat
          cases v with
          | url => simpa [accepts, value, or_iff_not_imp_left] using hurl
          | statementTimeout => exact htimeout
          | format => simpa [accepts, value, or_iff_not_imp_left] using hformat
          | _ => trivial
  · intro h
    have hurl : ¬ (!s.backend.url.startsWith "http://" &&
        !s.backend.url.startsWith "https://") = true := by
      rcases h .url with hurl | hurl <;> simp [hurl]
    have hformat : ¬ (s.log.format != "pretty" && s.log.format != "json") = true := by
      rcases h .format with hformat | hformat <;> simp [hformat]
    rw [if_neg hurl, if_neg (h .statementTimeout), if_neg hformat]

private theorem checked_eq_ok : s.checked = .ok o ↔ s.fault? = none ∧ o = s := by
  unfold checked
  cases s.fault? with
  | none => simp [eq_comm]
  | some f => simp

private theorem checked_eq_error {f : SettingsFault} : s.checked = .error f ↔
    s.fault? = some f := by
  unfold checked
  cases s.fault? <;> simp

/-- What comes of a file that can be read. -/
theorem ofTextAndVariables_eq (hread : (Toml.read? text).bind ofToml? = some s) :
    ofTextAndVariables lookup path text =
      s.checked.map fun s => s.withVariables lookup := by
  unfold ofTextAndVariables ofText
  rw [hread]

/-- **Judged before merging.**  A file that can be read is refused just for the first
fault of its own settings; otherwise it comes to the merged settings, whatever they are.
That is the verdict on the merged settings just if either both are sound or neither is;
and settings are sound when each is by itself, the merged ones as the file or the
environment gives them. -/
theorem judged_before_merging (hread : (Toml.read? text).bind ofToml? = some s)
    (hm : Merges lookup s m) :
    (∀ o, ofTextAndVariables lookup path text = .ok o ↔ s.fault? = none ∧ o = m) ∧
      (∀ f, ofTextAndVariables lookup path text = .error f ↔ s.fault? = some f) ∧
      ((∀ o, ofTextAndVariables lookup path text = .ok o ↔ m.fault? = none ∧ o = m) ↔
        (s.fault? = none ↔ m.fault? = none)) ∧
      (s.fault? = none ↔ ∀ v : Variable, v.accepts (v.value s)) ∧
      (m.fault? = none ↔
        ∀ v : Variable, v.accepts
          (((lookup v.name).bind v.read?).getD (v.value s))) := by
  have hok : ∀ o, ofTextAndVariables lookup path text = .ok o ↔
      s.fault? = none ∧ o = m := by
    intro o
    rw [ofTextAndVariables_eq hread, Fallible.map_eq_ok_iff, merges_iff.1 hm]
    constructor
    · rintro ⟨s', hs', rfl⟩
      obtain ⟨hnone, rfl⟩ := checked_eq_ok.1 hs'
      exact ⟨hnone, rfl⟩
    · rintro ⟨hnone, rfl⟩
      exact ⟨s, checked_eq_ok.2 ⟨hnone, rfl⟩, rfl⟩
  have hmerged : m.fault? = none ↔
      ∀ v : Variable, v.accepts (((lookup v.name).bind v.read?).getD (v.value s)) := by
    rw [fault?_eq_none_iff]
    exact forall_congr' fun v => by rw [hm.value v]
  refine ⟨hok, fun f => ?_, ⟨fun hdecides => ?_, fun hsame o => ?_⟩,
    fault?_eq_none_iff, hmerged⟩
  · rw [ofTextAndVariables_eq hread, Fallible.map_eq_error_iff, checked_eq_error]
  · -- The merged settings are all that can come of the file, so they decide.
    have hboth := (hok m).symm.trans (hdecides m)
    simpa using hboth
  · rw [hok, hsame]

/-- An environment in which one variable is set. -/
def oneSet (v : Variable) (text : String) (name : String) : Option String :=
  if name = v.name then some text else none

/-- `[logging]` with a level. -/
def warnText : String := "[logging]\nlevel = \"warn\"\n"

/-- A port in the environment is merged into the settings of a sound file; one that is
no number is not. -/
theorem judged_before_merging_port :
    ∃ s m,
      (Toml.read? warnText).bind ofToml? = some s ∧ Merges (oneSet .port "+8080") s m ∧
      m.log.level = "warn" ∧ m.service.port = 8080 ∧
      ofTextAndVariables (oneSet .port "+8080") "" warnText = .ok m ∧
      ofTextAndVariables (oneSet .port "eighty") "" warnText = .ok s := by
  have hread : (Toml.read? warnText).bind ofToml? =
      some { log := { level := "warn" } } := by decide +kernel
  have hsound : ({ log := { level := "warn" } } : Settings).fault? =
      none := by simp [fault?]
  have hmerges :=
    merges_withVariables { log := { level := "warn" } } (oneSet .port "+8080")
  have hsame : Merges (oneSet .port "eighty") { log := { level := "warn" } } _ :=
    merges_iff.2 rfl
  exact ⟨_, _, hread, hmerges, rfl, rfl,
    ((judged_before_merging hread hmerges).1 _).2 ⟨hsound, rfl⟩,
    ((judged_before_merging hread hsame).1 _).2 ⟨hsound, rfl⟩⟩

/-- `[logging]` with a form that is not known. -/
def xmlText : String := "[logging]\nformat = \"xml\"\n"

/-- A file at fault is refused although the environment mends it, and a sound file is
taken although the environment spoils it. -/
theorem mended_file_refused :
    (∃ s m,
      (Toml.read? xmlText).bind ofToml? = some s ∧ Merges (oneSet .format "json") s m ∧
        m.fault? = none ∧ ofTextAndVariables (oneSet .format "json") "" xmlText =
          .error
            (.invalid "logging.format" "unknown format 'xml', use pretty or json")) ∧
      ∃ s m, (Toml.read? "").bind ofToml? = some s ∧ Merges (oneSet .format "xml") s m ∧
        m.fault? =
          some (.invalid "logging.format" "unknown format 'xml', use pretty or json") ∧
        ofTextAndVariables (oneSet .format "xml") "" "" = .ok m := by
  have hxml : ({ log := { format := "xml" } } : Settings).fault? =
      some (.invalid "logging.format" "unknown format 'xml', use pretty or json") := by
    simp [fault?]
    rfl
  have hplain : ({} : Settings).fault? = none := by simp [fault?]
  have hread : (Toml.read? xmlText).bind ofToml? =
      some { log := { format := "xml" } } := by decide +kernel
  have hempty : (Toml.read? "").bind ofToml? = some {} := by decide +kernel
  have hmended : ({ log := { format := "json" } } : Settings).fault? =
      none := by simp [fault?]
  refine ⟨⟨_, { log := { format := "json" } }, hread, merges_iff.2 rfl, hmended, ?_⟩,
    _, { log := { format := "xml" } }, hempty, merges_iff.2 rfl, hxml, ?_⟩
  · rw [ofTextAndVariables_eq hread, checked_eq_error.2 hxml]
    rfl
  · rw [ofTextAndVariables_eq hempty, checked_eq_ok.2 ⟨hplain, rfl⟩]
    rfl

end Settings

end SeriesQuery
