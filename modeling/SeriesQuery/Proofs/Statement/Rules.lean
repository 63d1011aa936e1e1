import SeriesQuery.Proofs.Statement.Layout

/-!
# Laws of reading rules

What the ways of combining rules take off a text and when they decline, as equivalences
that peel a rule apart into the rules it is made of.  A rule reads a form when it takes
a value off exactly the texts that begin with the lexemes of that value.

## Main results

* `bind_took`, `orElse_took`, `optional_took`, `absent_took`: the combinations of rules.
* `Reads`: what a rule takes is laid out there, and what is laid out is taken.
* `others_reads`, `separated_reads`, `many_reads`: lists of parts are read part by part.
-/

namespace SeriesQuery.Reading

open SeriesQuery.Text (isBlank)
open SeriesQuery.Rendering
open Rule

variable {α β : Type}

/-- A rule declines in front of a text. -/
def Declines (p : Rule α) (s : List Char) : Prop := ∃ e, p s = .declined e

/-- A rule that declines takes nothing. -/
theorem Declines.not_took {p : Rule α} {s r : List Char} {a : α} (h : Declines p s) :
    p s ≠ .took a r := by
  obtain ⟨e, he⟩ := h
  simp [he]

/-! ## Combined rules -/

section Combined

variable {p q : Rule α} {s r : List Char}

@[simp] theorem pure_took {a b : α} : (pure a : Rule α) s = .took b r ↔
    a = b ∧ s = r := by
  simp [pure, Rule.pure]

@[simp] theorem pure_declines {a : α} : ¬ Declines (pure a : Rule α) s := by
  simp [Declines, pure, Rule.pure]

@[simp] theorem bind_took {f : α → Rule β} {b : β} :
    (p >>= f) s = .took b r ↔ ∃ a m, p s = .took a m ∧ f a m = .took b r := by
  simp only [bind, Rule.bind]
  cases p s <;> simp [and_assoc]

@[simp] theorem bind_declines {f : α → Rule β} :
    Declines (p >>= f) s ↔
      Declines p s ∨ ∃ a m, p s = .took a m ∧ Declines (f a) m := by
  simp only [Declines, bind, Rule.bind]
  cases p s <;> simp [and_assoc]

/-- A value is turned over where a rule takes it. -/
theorem map_eq {f : α → β} : (f <$> p) s =
    match p s with
    | .took a r => .took (f a) r
    | .declined e => .declined e
    | .failed e => .failed e := rfl

@[simp] theorem map_took {f : α → β} {b : β} :
    (f <$> p) s = .took b r ↔ ∃ a, p s = .took a r ∧ f a = b := by
  rw [map_eq]
  cases p s with
  | took a m => simp [and_assoc, and_comm (a := m = r)]
  | declined e => simp
  | failed e => simp

@[simp] theorem map_declines {f : α → β} : Declines (f <$> p) s ↔ Declines p s := by
  simp only [Declines, map_eq]
  cases p s <;> simp

@[simp] theorem orElse_took {a : α} :
    Rule.orElse p q s = .took a r ↔
      p s = .took a r ∨ Declines p s ∧ q s = .took a r := by
  unfold Rule.orElse Declines
  cases p s <;> cases q s <;> simp

@[simp] theorem orElse_declines : Declines (Rule.orElse p q) s ↔
    Declines p s ∧ Declines q s := by
  simp only [Declines, Rule.orElse]
  cases p s <;> cases q s <;> simp

@[simp] theorem optional_took {o : Option α} :
    Rule.optional p s = .took o r ↔
      (∃ a, p s = .took a r ∧ o = some a) ∨ Declines p s ∧ o = none ∧ r = s := by
  unfold Rule.optional Declines
  cases p s with
  | took a m =>
    constructor
    case mp =>
      intro h
      simp only [Step.took.injEq] at h
      exact .inl ⟨a, by simp [h.2], h.1.symm⟩
    case mpr =>
      rintro (⟨a', h, rfl⟩ | ⟨⟨e, h⟩, -⟩)
      · simpa using h
      · simp at h
  | declined e => simp [eq_comm]
  | failed e => simp

@[simp] theorem commit_took {a : α} : commit p s = .took a r ↔ p s = .took a r := by
  unfold commit
  cases p s <;> simp

@[simp] theorem commit_declines : ¬ Declines (commit p) s := by
  unfold Declines commit
  cases p s <;> simp

@[simp] theorem expecting_took {what : Expectation} {a : α} :
    expecting what p s = .took a r ↔ p s = .took a r := by
  unfold expecting
  cases p s <;> simp

@[simp] theorem absent_took {u : Unit} : absent p s = .took u r ↔
    Declines p s ∧ s = r := by
  unfold absent Declines
  cases p s <;> simp

@[simp] theorem absent_declines : Declines (absent p) s ↔ ∃ a r, p s = .took a r := by
  simp only [Declines, absent]
  cases p s <;> simp

@[simp] theorem convert_took {f : α → Except Reason β} {b : β} :
    convert p f s = .took b r ↔ ∃ a, p s = .took a r ∧ f a = .ok b := by
  unfold Rule.convert
  cases p s with
  | took a m => cases hf : f a <;> simp [hf, and_assoc, and_comm]
  | declined e => simp
  | failed e => simp

@[simp] theorem convert?_took {f : α → Option β} {b : β} :
    convert? p f s = .took b r ↔ ∃ a, p s = .took a r ∧ f a = some b := by
  unfold convert?
  cases p s with
  | took a m => cases hf : f a <;> simp [hf, and_assoc, and_comm]
  | declined e => simp
  | failed e => simp

@[simp] theorem taken_took {cs : List Char} :
    taken p s = .took cs r ↔
      ∃ a, p s = .took a r ∧ s.take (s.length - r.length) = cs := by
  unfold taken
  cases p s with
  | took a m =>
    simp only [Step.took.injEq]
    constructor
    case mp =>
      rintro ⟨htaken, rfl⟩
      exact ⟨a, ⟨rfl, rfl⟩, htaken⟩
    case mpr =>
      rintro ⟨_, ⟨-, rfl⟩, htaken⟩
      exact ⟨htaken, rfl⟩
  | declined e => simp
  | failed e => simp

@[simp] theorem taken_declines : Declines (taken p) s ↔ Declines p s := by
  unfold Declines taken
  cases p s <;> simp

/-- A rule that is converted declines where the rule itself does. -/
theorem Declines.convert {f : α → Except Reason β} (h : Declines p s) :
    Declines (convert p f) s := by
  obtain ⟨e, he⟩ := h
  exact ⟨e, by simp [Rule.convert, he]⟩

theorem Declines.convert? {f : α → Option β} (h : Declines p s) :
    Declines (convert? p f) s := by
  obtain ⟨e, he⟩ := h
  exact ⟨e, by simp [Rule.convert?, he]⟩

end Combined

/-! ## Characters -/

section Characters

variable {s r : List Char}

@[simp] theorem blanks_took {u : Unit} : blanks s = .took u r ↔
    s.dropWhile isBlank = r := by
  simp [blanks]

@[simp] theorem blanks_declines : ¬ Declines blanks s := by simp [Declines, blanks]

@[simp] theorem char_took {c d : Char} : char c s = .took d r ↔ c = d ∧ s = c :: r := by
  cases s with
  | nil => simp [char]
  | cons e s =>
    simp only [char]
    split <;> simp_all [eq_comm]

@[simp] theorem char_declines {c : Char} : Declines (char c) s ↔ c ∉ s.head? := by
  cases s with
  | nil => simp [char, Declines]
  | cons d s =>
    simp only [char, Declines]
    split <;> simp_all [eq_comm]

@[simp] theorem satisfy_took {p : Char → Bool} {c : Char} :
    satisfy p s = .took c r ↔ s = c :: r ∧ p c = true := by
  cases s with
  | nil => simp [satisfy]
  | cons d s =>
    simp only [satisfy]
    split
    · simp_all only [Step.took.injEq, List.cons.injEq]
      exact ⟨fun ⟨hd, hs⟩ => ⟨⟨hd, hs⟩, hd ▸ ‹_›⟩, fun h => h.1⟩
    · simp only [reduceCtorEq, List.cons.injEq, false_iff]
      rintro ⟨⟨rfl, rfl⟩, h⟩
      contradiction

@[simp] theorem satisfy_declines {p : Char → Bool} :
    Declines (satisfy p) s ↔ ∀ c ∈ s.head?, p c = false := by
  cases s with
  | nil => simp [satisfy, Declines]
  | cons d s =>
    simp only [satisfy, Declines]
    split <;> simp_all

@[simp] theorem run_took {p : Char → Bool} {cs : List Char} :
    run p s = .took cs r ↔
      s = cs ++ r ∧ (∀ c ∈ cs, p c = true) ∧ ∀ c ∈ r.head?, p c = false := by
  rw [← span_eq_iff]
  simp [run]

@[simp] theorem run1_took {p : Char → Bool} {cs : List Char} :
    run1 p s = .took cs r ↔ cs ≠ [] ∧ s = cs ++ r ∧ (∀ c ∈ cs, p c = true) ∧
      ∀ c ∈ r.head?, p c = false := by
  rw [← span_eq_iff]
  unfold run1
  split
  case h_1 none =>
    simp only [none, reduceCtorEq, false_iff]
    rintro ⟨ne, rfl, -⟩
    exact ne rfl
  case h_2 ne =>
    simp only [Step.took.injEq]
    refine ⟨fun h => ⟨fun empty => ne (h.1.trans empty), h⟩, fun h => h.2⟩

@[simp] theorem run1_declines {p : Char → Bool} :
    Declines (run1 p) s ↔ ∀ c ∈ s.head?, p c = false := by
  cases s with
  | nil => simp [run1, Declines]
  | cons d s =>
    by_cases h : p d = true <;> simp [run1, Declines, h]

@[simp] theorem spelled_took {word : List Char} {u : Unit} :
    spelled word s = .took u r ↔ (s.take word.length).map Char.toLower = word ∧
      s.drop word.length = r := by
  simp only [spelled]
  split <;> simp_all

@[simp] theorem spelled_declines {word : List Char} :
    Declines (spelled word) s ↔ (s.take word.length).map Char.toLower ≠ word := by
  simp only [spelled, Declines]
  split <;> simp_all

end Characters

/-! ## Forms -/

/-- A rule at the first place that is no blank. -/
def spaced (rule : Rule α) : Rule α := fun s => rule (s.dropWhile isBlank)

/-- A rule reads a form: what it takes is laid out in that form, and what is laid out in
that form it takes, if a text follows that cannot be mistaken for more of it. -/
structure Reads (rule : Rule α) (form : α → List Lexeme → Prop)
    (follow : List Char → Prop) :
    Prop where
  sound : ∀ {s r : List Char} {a : α}, rule s = .took a r → ∃ ts,
    form a ts ∧ Laid ts s r
  complete : ∀ {s r : List Char} {a : α} {ts : List Lexeme},
    form a ts → Laid ts s r → follow r → rule s = .took a r

/-- Any text may follow. -/
def anything : List Char → Prop := fun _ => True

/-- A rule that takes forms of one solid lexeme reads them behind blanks. -/
theorem reads_single {rule : Rule α} {form : α → List Lexeme → Prop}
    (single : ∀ {a ts}, form a ts → ∃ l, ts = [l] ∧ l.Solid)
    (took : ∀ {s r : List Char} {a : α}, rule s = .took a r ↔
      ∃ l, form a [l] ∧ l.At s r) :
    Reads (spaced rule) form anything where
  sound h := by
    obtain ⟨l, hl, stands⟩ := took.1 h
    obtain ⟨_, ⟨⟩, solid⟩ := single hl
    exact ⟨[l], hl, (Lexeme.laid_iff solid).2 stands⟩
  complete := by
    rintro s r a ts hts laid -
    obtain ⟨l, rfl, solid⟩ := single hts
    exact took.2 ⟨l, hts, (Lexeme.laid_iff solid).1 laid⟩

/-- A rule that takes single solid lexemes reads them behind blanks. -/
theorem reads_lexeme {rule : Rule α} (form : α → Lexeme → Prop)
    (solid : ∀ {a l}, form a l → l.Solid)
    (took : ∀ {s r : List Char} {a : α}, rule s = .took a r ↔
      ∃ l, form a l ∧ l.At s r) :
    Reads (spaced rule) (fun a ts => ∃ l, form a l ∧ ts = [l]) anything := by
  refine reads_single ?_ ?_
  · rintro a _ ⟨l, hl, rfl⟩
    exact ⟨l, rfl, solid hl⟩
  · intro s r a
    simp [took]

/-- Another way to say the form, and a follower that is asked for more. -/
theorem Reads.congr {rule : Rule α} {form form' : α → List Lexeme → Prop}
    {follow follow' : List Char → Prop} (reads : Reads rule form follow)
    (same : ∀ {a ts}, form' a ts ↔ form a ts) (weaker : ∀ {r}, follow' r → follow r) :
    Reads rule form' follow' where
  sound h := by
    obtain ⟨ts, hts, laid⟩ := reads.sound h
    exact ⟨ts, same.2 hts, laid⟩
  complete hts laid hr := reads.complete (same.1 hts) laid (weaker hr)

/-! ## Lists of parts -/

/-- A separator takes one solid lexeme, and the blanks on both sides of it. -/
structure Separates (separator : Rule Unit) (form : Lexeme → Prop) : Prop where
  solid : ∀ {l}, form l → l.Solid
  took : ∀ {s r : List Char},
    separator s = .took () r ↔ ∃ l m, form l ∧ Laid [l] s m ∧ m.dropWhile isBlank = r

section Lists

variable {separator : Rule Unit} {form : α → List Lexeme → Prop} {part : Rule α}
  {sign : Lexeme → Prop} {follow inner : List Char → Prop}

/-- What stands after a part begins another one, or it is what follows the list. -/
theorem inner_of_each {as : List α} {ts : List Lexeme} {s r : List Char}
    (parts : Each form as ts) (laid : Laid ts s r)
    (next : ∀ {a ts s r}, form a ts → Laid ts s r → inner s) (stop : inner r) :
    inner s := by
  cases parts with
  | nil => exact laid_nil.1 laid ▸ stop
  | cons first _ =>
    obtain ⟨_, laid, -⟩ := laid_append.1 laid
    exact next first laid

/-- Parts after separators are read part by part.  `inner` is what may follow a part:
another separator, or what may follow the list. -/
theorem others_reads (separates : Separates separator sign)
    (reads : Reads (spaced part) form inner)
    (next : ∀ {a ts s r}, After sign form a ts → Laid ts s r → inner s)
    (stop : ∀ {r}, follow r → inner r ∧ Declines separator r) :
    Reads (others separator part) (Each (After sign form)) follow where
  sound := by
    intro s r as h
    induction n : s.length using Nat.strong_induction_on generalizing s as
    case h n ih =>
      subst n
      unfold others at h
      split at h
      case h_1 m hm =>
        split at h
        case isFalse => simp at h
        split at h
        case h_1 a m' ha =>
          split at h
          case isFalse => simp at h
          case isTrue shorter =>
            split at h
            case h_2 hother => exact absurd h (hother _ _)
            case h_1 as' r' has =>
              obtain ⟨rfl, rfl⟩ : a :: as' = as ∧ r' = r := by simpa using h
              obtain ⟨l, m₁, hl, first, rfl⟩ := separates.took.1 hm
              obtain ⟨ts, hts, laid⟩ := reads.sound ha
              obtain ⟨ts', hts', rest⟩ := ih _ shorter has rfl
              exact ⟨l :: ts ++ ts', .cons (.intro hl hts) hts',
                laid_append.2 ⟨_, laid_cons.2 ⟨_, first, laid⟩, rest⟩⟩
        case h_2 =>
          obtain ⟨rfl, rfl⟩ : [] = as ∧ s = r := by simpa using h
          exact ⟨[], .nil, .nil s⟩
        case h_3 => simp at h
      case h_2 =>
        obtain ⟨rfl, rfl⟩ : [] = as ∧ s = r := by simpa using h
        exact ⟨[], .nil, .nil s⟩
      case h_3 => simp at h
  complete := by
    intro s r as ts hts laid hr
    induction hts generalizing s with
    | nil =>
      obtain rfl := laid_nil.1 laid
      obtain ⟨-, e, he⟩ := stop hr
      rw [others, he]
    | cons first rest ih =>
      obtain ⟨hl, ha⟩ := first
      rename_i a as ts' l ts
      obtain ⟨m, laid, more⟩ := laid_append.1 laid
      obtain ⟨m₁, sep, laid⟩ := laid_cons.1 laid
      have follows : inner m := inner_of_each rest more next (stop hr).1
      have took : separator s = .took () (m₁.dropWhile isBlank) :=
        separates.took.2 ⟨l, m₁, hl, sep, rfl⟩
      have value : part (m₁.dropWhile isBlank) = .took a m :=
        reads.complete ha laid follows
      have shorter := sep.length_lt (separates.solid hl)
      have := List.length_dropWhile_le isBlank s
      have := List.length_dropWhile_le isBlank m₁
      have := laid.suffix.length_le
      rw [others, took]
      simp only [value, ih more]
      rw [if_pos (by omega), dif_pos (by omega)]

/-- A list is read part by part. -/
theorem separated_reads (separates : Separates separator sign)
    (reads : Reads (spaced part) form inner)
    (next : ∀ {a ts s r}, After sign form a ts → Laid ts s r → inner s)
    (stop : ∀ {r}, follow r → inner r ∧ Declines separator r) :
    Reads (spaced (separated separator part)) (Listed sign form) follow where
  sound := by
    intro s r as h
    simp only [spaced, separated, bind_took, pure_took] at h
    obtain ⟨a, m, first, as, _, others, rfl, rfl⟩ := h
    obtain ⟨ts, hts, laid⟩ := reads.sound first
    obtain ⟨ts', hts', rest⟩ := (others_reads separates reads next stop).sound others
    exact ⟨ts ++ ts', .intro hts hts', laid_append.2 ⟨m, laid, rest⟩⟩
  complete := by
    rintro s r _ _ ⟨first, others⟩ laid hr
    obtain ⟨m, laid, rest⟩ := laid_append.1 laid
    simp only [spaced, separated, bind_took, pure_took]
    exact ⟨_, m,
      reads.complete first laid (inner_of_each others rest next (stop hr).1), _, r,
      (others_reads separates reads next stop).complete others rest hr, rfl, rfl⟩

/-- A list that may be empty is empty only where no part begins. -/
theorem separated?_took {as : List α} {s r : List Char} :
    separated? separator part s = .took as r ↔
      separated separator part s = .took as r ∨ Declines part s ∧ [] = as ∧ s = r := by
  simp only [separated, bind_took, pure_took, separated?, Declines]
  cases part s with
  | took a m => cases rest : others separator part m <;>
      simp [rest, and_assoc, and_comm]
  | declined e => simp
  | failed e => simp

/-- As many parts as there are are read part by part. -/
theorem many_reads (reads : Reads part form inner)
    (progress : ∀ {a ts s r}, form a ts → Laid ts s r → r.length < s.length)
    (next : ∀ {a ts s r}, form a ts → Laid ts s r → inner s)
    (stop : ∀ {r}, follow r → inner r ∧ Declines part r) :
    Reads (many part) (Each form) follow where
  sound := by
    intro s r as h
    induction n : s.length using Nat.strong_induction_on generalizing s as
    case h n ih =>
      subst n
      unfold many at h
      split at h
      case h_1 a m ha =>
        split at h
        case isFalse => simp at h
        case isTrue shorter =>
          split at h
          case h_2 other => exact absurd h (other _ _)
          case h_1 as' r' has =>
            obtain ⟨rfl, rfl⟩ : a :: as' = as ∧ r' = r := by simpa using h
            obtain ⟨ts, hts, laid⟩ := reads.sound ha
            obtain ⟨ts', hts', rest⟩ := ih _ shorter has rfl
            exact ⟨ts ++ ts', .cons hts hts', laid_append.2 ⟨_, laid, rest⟩⟩
      case h_2 =>
        obtain ⟨rfl, rfl⟩ : [] = as ∧ s = r := by simpa using h
        exact ⟨[], .nil, .nil s⟩
      case h_3 => simp at h
  complete := by
    intro s r as ts hts laid hr
    induction hts generalizing s with
    | nil =>
      obtain rfl := laid_nil.1 laid
      obtain ⟨-, e, he⟩ := stop hr
      rw [many, he]
    | cons first rest ih =>
      obtain ⟨m, laid, more⟩ := laid_append.1 laid
      have value := reads.complete first laid (inner_of_each rest more next (stop hr).1)
      rw [many, value]
      simp only [ih more]
      rw [dif_pos (progress first laid)]

end Lists

end SeriesQuery.Reading
