import Mathlib.Data.List.TakeWhile
import SeriesQuery.Statement.Rendering

/-!
# Laws of layout

How rows of lexemes lie in a text, apart from any rule that reads them.

## Main results

* `span_eq_iff`: splitting off the characters of a class, and what is left.
* `Lexeme.laid_iff`: a lexeme that does not begin with a blank stands at the first place
  that is no blank.
* `laid_append`: a row of lexemes is laid out part by part.
* `Listed.and_iff`: a demand on the parts of a list is a demand on each of its values.
-/

namespace SeriesQuery.Rendering

open SeriesQuery.Text (isBlank)

/-! ## Characters of a class -/

/-- The characters of a class at the front of a text and the rest of it, as the only
split into such characters and a rest that does not go on with one. -/
theorem span_eq_iff {p : Char → Bool} {s cs r : List Char} :
    s.takeWhile p = cs ∧ s.dropWhile p = r ↔
      s = cs ++ r ∧ (∀ c ∈ cs, p c = true) ∧ ∀ c ∈ r.head?, p c = false := by
  constructor
  case mp =>
    rintro ⟨rfl, rfl⟩
    refine ⟨List.takeWhile_append_dropWhile.symm,
      fun c hc => List.mem_takeWhile_imp hc, ?_⟩
    intro c hc
    have stop := List.head?_dropWhile_not p s
    rw [Option.mem_def.1 hc] at stop
    exact stop
  case mpr =>
    rintro ⟨rfl, all, stop⟩
    rw [List.takeWhile_append_of_pos all, List.dropWhile_append_of_pos all]
    cases r with
    | nil => simp
    | cons c r =>
      have := stop c rfl
      simp [this]

/-! ## Gaps -/

/-- Skipping blanks leaves a gap behind. -/
theorem gap_dropWhile (s : List Char) : Gap s (s.dropWhile isBlank) :=
  ⟨s.takeWhile isBlank, fun _ hc => List.mem_takeWhile_imp hc,
    List.takeWhile_append_dropWhile.symm⟩

/-- Behind a gap the first character that is no blank is the same. -/
theorem Gap.dropWhile_eq {s m : List Char} (gap : Gap s m) :
    s.dropWhile isBlank = m.dropWhile isBlank := by
  obtain ⟨g, blank, rfl⟩ := gap
  exact List.dropWhile_append_of_pos blank

/-- Only blanks are left when skipping them leaves nothing. -/
theorem gap_nil_iff {s : List Char} : Gap s [] ↔ s.dropWhile isBlank = [] := by
  constructor
  case mp => exact fun gap => gap.dropWhile_eq
  case mpr =>
    intro h
    have gap := gap_dropWhile s
    rwa [h] at gap

/-! ## Lexemes in a text -/

/-- A lexeme begins with a character that is no blank. -/
def Lexeme.Solid (l : Lexeme) : Prop := ∃ c cs, l.chars = c :: cs ∧ isBlank c = false

/-- A sign that is no blank is solid. -/
theorem sign_solid {c : Char} (h : isBlank c = false) : (sign c).Solid :=
  ⟨c, [], rfl, h⟩

/-- A solid lexeme takes characters. -/
private theorem Lexeme.At.length_lt {l : Lexeme} {s r : List Char} (h : l.At s r)
    (solid : l.Solid) : r.length < s.length := by
  obtain ⟨c, cs, hcs, -⟩ := solid
  rw [h.1, hcs]
  simp only [List.length_append, List.length_cons]
  omega

/-- A solid lexeme stands where the blanks end. -/
theorem Lexeme.laid_iff {l : Lexeme} {s r : List Char} (solid : l.Solid) :
    Laid [l] s r ↔ l.At (s.dropWhile isBlank) r := by
  constructor
  case mp =>
    rintro (_ | ⟨gap, stands, _ | _⟩)
    obtain ⟨c, cs, hcs, hc⟩ := solid
    rwa [gap.dropWhile_eq, stands.1, hcs, List.cons_append,
      List.dropWhile_cons_of_neg (by simp [hc]), ← List.cons_append, ← hcs, ← stands.1]
  case mpr => exact fun stands => .cons (gap_dropWhile s) stands (.nil r)

/-- A row of lexemes is laid out part by part. -/
theorem laid_append {ls ls' : List Lexeme} {s r : List Char} :
    Laid (ls ++ ls') s r ↔ ∃ m, Laid ls s m ∧ Laid ls' m r := by
  constructor
  case mp =>
    intro h
    induction ls generalizing s with
    | nil => exact ⟨s, .nil s, h⟩
    | cons l ls ih =>
      obtain _ | ⟨gap, stands, rest⟩ := h
      obtain ⟨m, first, second⟩ := ih rest
      exact ⟨m, .cons gap stands first, second⟩
  case mpr =>
    rintro ⟨m, first, second⟩
    induction first with
    | nil => exact second
    | cons gap stands _ ih => exact .cons gap stands (ih second)

/-- The first lexeme of a row, and the others. -/
theorem laid_cons {l : Lexeme} {ls : List Lexeme} {s r : List Char} :
    Laid (l :: ls) s r ↔ ∃ m, Laid [l] s m ∧ Laid ls m r := @laid_append [l] ls s r

/-- An empty row takes nothing. -/
theorem laid_nil {s r : List Char} : Laid [] s r ↔ s = r := by
  constructor
  case mp => rintro ⟨⟩; rfl
  case mpr => rintro rfl; exact .nil s

/-- A row of lexemes begins with the first character of its first lexeme. -/
theorem laid_head {l : Lexeme} {ls : List Lexeme} {c : Char} {cs s r : List Char}
    (laid : Laid (l :: ls) s r) (chars : l.chars = c :: cs)
    (solid : isBlank c = false) : (s.dropWhile isBlank).head? = some c := by
  obtain ⟨m, laid, -⟩ := laid_cons.1 laid
  rw [((Lexeme.laid_iff ⟨c, cs, chars, solid⟩).1 laid).1, chars]
  rfl

/-- A row of lexemes goes forward in the text. -/
theorem Laid.suffix {ls : List Lexeme} {s r : List Char} (laid : Laid ls s r) :
    r <:+ s := by
  induction laid with
  | nil => exact List.suffix_rfl
  | cons gap stands _ ih =>
    obtain ⟨g, -, rfl⟩ := gap
    exact ih.trans ⟨g ++ _, by rw [List.append_assoc, stands.1]⟩

/-- A row that begins with a solid lexeme takes characters that are no leading
blanks. -/
theorem Laid.length_lt {l : Lexeme} {ls : List Lexeme} {s r : List Char}
    (laid : Laid (l :: ls) s r) (solid : l.Solid) :
    r.length < (s.dropWhile isBlank).length := by
  obtain ⟨m, first, rest⟩ := laid_cons.1 laid
  have := ((Lexeme.laid_iff solid).1 first).length_lt solid
  have := rest.suffix.length_le
  omega

/-! ## Demands on the parts of a list -/

section Parts

variable {α : Type} {demand : α → Prop} {form : α → List Lexeme → Prop}
  {separator : Lexeme → Prop}

/-- A demand on each part is a demand on each value. -/
theorem Each.and_iff {as : List α} {ts : List Lexeme} :
    Each (fun a ts => demand a ∧ form a ts) as ts ↔
    (∀ a ∈ as, demand a) ∧ Each form as ts := by
  constructor
  case mp =>
    intro h
    induction h with
    | nil => exact ⟨by simp, .nil⟩
    | cons first _ ih => exact ⟨by simpa using ⟨first.1, ih.1⟩, .cons first.2 ih.2⟩
  case mpr =>
    rintro ⟨all, h⟩
    induction h with
    | nil => exact .nil
    | cons first _ ih =>
      exact .cons ⟨all _ (by simp), first⟩ (ih fun a ha => all a (by simp [ha]))

/-- A demand on a part after a separator. -/
theorem After.and_iff {a : α} {ts : List Lexeme} :
    After separator (fun a ts => demand a ∧ form a ts) a ts ↔
      demand a ∧ After separator form a ts := by
  constructor
  case mp =>
    rintro ⟨sep, part⟩
    exact ⟨part.1, .intro sep part.2⟩
  case mpr =>
    rintro ⟨ok, ⟨sep, part⟩⟩
    exact .intro sep ⟨ok, part⟩

/-- A demand on the parts after separators. -/
theorem each_after_and_iff {as : List α} {ts : List Lexeme} :
    Each (After separator fun a ts => demand a ∧ form a ts) as ts ↔
      (∀ a ∈ as, demand a) ∧ Each (After separator form) as ts := by
  have forms : (After separator fun a ts => demand a ∧ form a ts) =
      fun a ts => demand a ∧ After separator form a ts := by
    funext a ts
    exact propext After.and_iff
  rw [forms, Each.and_iff]

/-- A demand on the parts of a list is a demand on each of its values. -/
theorem Listed.and_iff {as : List α} {ts : List Lexeme} :
    Listed separator (fun a ts => demand a ∧ form a ts) as ts ↔
      (∀ a ∈ as, demand a) ∧ Listed separator form as ts := by
  constructor
  case mp =>
    rintro ⟨first, rest⟩
    obtain ⟨all, rest⟩ := each_after_and_iff.1 rest
    exact ⟨by simpa using ⟨first.1, all⟩, .intro first.2 rest⟩
  case mpr =>
    rintro ⟨all, ⟨first, rest⟩⟩
    exact .intro ⟨all _ (by simp), first⟩
      (each_after_and_iff.2 ⟨fun a ha => all a (by simp [ha]), rest⟩)

/-- A list that was written is not empty. -/
theorem Listed.ne_nil {as : List α} {ts : List Lexeme}
    (h : Listed separator form as ts) : as ≠ [] := by
  cases h
  simp

end Parts

end SeriesQuery.Rendering
