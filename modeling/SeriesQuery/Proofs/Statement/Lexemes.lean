import SeriesQuery.Proofs.Fallible
import SeriesQuery.Proofs.Statement.Rules

/-!
# Reading words, names and quoted texts

The rules for words, names, signs and quoted texts take exactly the lexemes of their
forms.  A lexeme ends where its rule stops by itself: a run of characters is taken as
far as it goes, so what follows may not go on with it.

## Main results

* `keyword_took`, `word_took`: keywords and words.
* `quotedText_took`: quoted texts, and what their bodies stand for.
* `name_took`, `tagValue_took`: names and tag values, quoted or not.
* `Follows`: what a text goes on with behind blanks, and which rules decline there.
-/

namespace SeriesQuery.Rendering

open SeriesQuery.Text (isBlank)
open SeriesQuery.Reading (isWordChar isWordStart)

/-! ## Letters -/

private theorem isBetween_iff {c : Char} {low high : UInt32} :
    (decide (c.val ≥ low) && decide (c.val ≤ high)) = true ↔
      low.toNat ≤ c.toNat ∧ c.toNat ≤ high.toNat :=
  Bool.and_eq_true_iff.trans
    (and_congr (decide_eq_true_iff.trans UInt32.le_iff_toNat_le)
      (decide_eq_true_iff.trans UInt32.le_iff_toNat_le))

/-- Where the capital letters stand. -/
theorem isUpper_iff_toNat {c : Char} :
    c.isUpper = true ↔ 65 ≤ c.toNat ∧ c.toNat ≤ 90 :=
  decide_eq_true_iff.trans
    (and_congr UInt32.le_iff_toNat_le UInt32.le_iff_toNat_le)

/-- Where the small letters stand. -/
theorem isLower_iff_toNat {c : Char} :
    c.isLower = true ↔ 97 ≤ c.toNat ∧ c.toNat ≤ 122 :=
  isBetween_iff

/-- Where the digits stand. -/
theorem isDigit_iff_toNat {c : Char} :
    c.isDigit = true ↔ 48 ≤ c.toNat ∧ c.toNat ≤ 57 :=
  isBetween_iff

theorem isAlpha_iff {c : Char} :
    c.isAlpha = true ↔ c.isUpper = true ∨ c.isLower = true :=
  Bool.or_eq_true_iff

/-- Characters of words are ASCII. -/
theorem isWordChar_ascii {c : Char} (h : isWordChar c = true) : c.toNat < 128 := by
  simp only [isWordChar, Char.isAlphanum, Bool.or_eq_true, beq_iff_eq, isAlpha_iff,
    isUpper_iff_toNat, isLower_iff_toNat, isDigit_iff_toNat] at h
  rcases h with ((h | h) | h) | rfl
  · omega
  · omega
  · omega
  · decide

/-- A character that may begin a word may also go on with it. -/
theorem isWordChar_of_isWordStart {c : Char} (h : isWordStart c = true) :
    isWordChar c = true := by
  simp only [isWordStart, isWordChar, Char.isAlphanum, Bool.or_eq_true] at h ⊢
  exact h.imp_left .inl

private theorem toLower_of_not_isUpper {c : Char} (h : c.isUpper = false) :
    c.toLower = c :=
  dif_neg (of_decide_eq_false h)

/-- The small letter of a capital letter stands 32 places behind it. -/
theorem isLower_toLower {c : Char} (h : c.isUpper = true) :
    c.toLower.isLower = true := by
  obtain ⟨hle, hge⟩ := isUpper_iff_toNat.1 h
  have hplace : c.toLower.toNat = c.toNat + 32 := by
    refine (congrArg Char.toNat (dif_pos (of_decide_eq_true h))).trans ?_
    rw [Char.toNat_mk, UInt32.toNat_add]
    show (c.toNat + 32) % 4294967296 = c.toNat + 32
    omega
  rw [isLower_iff_toNat, hplace]
  omega

/-- Only letters have another letter case. -/
theorem toLower_cases (c : Char) :
    c.toLower = c ∨ c.isAlpha = true ∧ c.toLower.isAlpha = true := by
  cases upper : c.isUpper with
  | false => exact .inl (toLower_of_not_isUpper upper)
  | true =>
    exact .inr
      ⟨isAlpha_iff.2 (.inl upper), isAlpha_iff.2 (.inr (isLower_toLower upper))⟩

theorem isAlpha_toLower (c : Char) : c.toLower.isAlpha = c.isAlpha := by
  rcases toLower_cases c with h | ⟨h, h'⟩
  · rw [h]
  · rw [h, h']

/-- A small letter stays as it is. -/
theorem toLower_toLower (c : Char) : c.toLower.toLower = c.toLower := by
  cases upper : c.isUpper with
  | false => rw [toLower_of_not_isUpper upper, toLower_of_not_isUpper upper]
  | true =>
    obtain ⟨hle, -⟩ := isLower_iff_toNat.1 (isLower_toLower upper)
    refine toLower_of_not_isUpper (Bool.eq_false_iff.2 fun h => ?_)
    obtain ⟨-, hge⟩ := isUpper_iff_toNat.1 h
    omega

/-- Letter case does not matter at the beginning of a word. -/
@[simp] theorem isWordStart_toLower (c : Char) :
    isWordStart c.toLower = isWordStart c := by
  rcases toLower_cases c with h | ⟨h, h'⟩
  · rw [h]
  · simp [isWordStart, h, h']

/-- Letter case does not matter inside a word. -/
@[simp] theorem isWordChar_toLower (c : Char) :
    isWordChar c.toLower = isWordChar c := by
  rcases toLower_cases c with h | ⟨h, h'⟩
  · rw [h]
  · simp [isWordChar, Char.isAlphanum, h, h']

/-- A class without the four blanks has none of them. -/
theorem isBlank_eq_false {p : Char → Bool} {c : Char} (h : p c = true)
    (none : (p ' ' || p '\t' || p '\r' || p '\n') = false) : isBlank c = false := by
  simp only [Bool.or_eq_false_iff] at none
  obtain ⟨⟨⟨hs, ht⟩, hr⟩, hn⟩ := none
  rw [isBlank, Bool.eq_false_iff]
  intro blank
  simp only [Bool.or_eq_true, beq_iff_eq] at blank
  rcases blank with ((rfl | rfl) | rfl) | rfl <;> simp_all

/-- A character whose small letter is no blank is none either. -/
theorem isBlank_of_toLower {c : Char} (h : isBlank c.toLower = false) :
    isBlank c = false := by
  rcases toLower_cases c with hc | ⟨hc, -⟩
  · rwa [hc] at h
  · exact isBlank_eq_false hc (by decide)

/-! ## What words are made of -/

/-- A keyword begins with a character that is no blank. -/
abbrev Firm (w : String) : Prop := w.toList.head?.any (fun c => !isBlank c) = true

/-- The first character of a keyword is its first letter in one of its cases. -/
theorem Keyword.head {w : String} {c : Char} {l : Lexeme} (h : Keyword w l)
    (hw : w.toList.head? = some c) : ∃ d ds, l.chars = d :: ds ∧ d.toLower = c := by
  obtain ⟨same⟩ := h
  obtain ⟨cs, hcs⟩ := List.head?_eq_some_iff.1 hw
  rw [SameLetters, hcs] at same
  obtain ⟨d, ds, rfl, hd, -⟩ := List.map_eq_cons_iff.1 same
  exact ⟨d, ds, rfl, hd⟩

/-- A keyword is solid. -/
theorem Keyword.solid {w : String} {l : Lexeme} (h : Keyword w l) (firm : Firm w) :
    l.Solid := by
  obtain ⟨c, hw, hc⟩ := (Option.any_eq_true _ _).1 firm
  obtain ⟨d, ds, hl, rfl⟩ := h.head hw
  exact ⟨d, ds, hl, isBlank_of_toLower (by simpa using hc)⟩

/-- A text of the right characters is a name or a word. -/
theorem spells_of_all {p : Char → Bool} {w : String}
    (start : w.toList.head?.any isWordStart = true) (all : w.toList.all p = true) :
    Spells p w := by
  obtain ⟨c, hw, hc⟩ := (Option.any_eq_true _ _).1 start
  obtain ⟨cs, hcs⟩ := List.head?_eq_some_iff.1 hw
  rw [hcs] at all
  exact ⟨c, cs, hcs, hc, fun d hd => List.all_eq_true.1 all d (by simp [hd])⟩

/-- Names and words are solid. -/
theorem Spells.solid {p q : Char → Bool} {w : String} (h : Spells p w) :
    (Lexeme.mk w.toList q).Solid := by
  obtain ⟨c, cs, hw, hc, -⟩ := h
  exact ⟨c, cs, hw, isBlank_eq_false hc (by decide)⟩

/-- A keyword that is also a word is taken as a word in the letters that were
written. -/
theorem IsWord.of_sameLetters {cs : List Char} {w : String} (hw : IsWord w)
    (same : SameLetters cs w) : IsWord (String.ofList cs) := by
  obtain ⟨c, ds, hw, hc, hds⟩ := hw
  rw [SameLetters, hw] at same
  obtain ⟨d, cs', rfl, rfl, rfl⟩ := List.map_eq_cons_iff.1 same
  refine ⟨d, cs', by simp, by simpa using hc, fun e he => ?_⟩
  simpa using hds e.toLower (List.mem_map_of_mem he)

/-- All characters of a word are characters of words. -/
theorem IsWord.all {w : String} (hw : IsWord w) :
    ∀ c ∈ w.toList, isWordChar c = true := by
  obtain ⟨c, cs, hw, hc, hcs⟩ := hw
  rw [hw]
  simpa using ⟨isWordChar_of_isWordStart hc, hcs⟩

/-- A word in small letters is a word. -/
theorem IsWord.map_toLower {w v : String} (hw : IsWord w)
    (hv : v.toList = w.toList.map Char.toLower) : IsWord v := by
  obtain ⟨c, cs, hw, hc, hcs⟩ := hw
  refine ⟨c.toLower, cs.map Char.toLower, by simp [hv, hw], by simpa using hc, ?_⟩
  simpa using hcs

/-- A word is lowered letter by letter. -/
theorem IsWord.lower {w : String} (hw : IsWord w) :
    (Text.lower w).toList = w.toList.map Char.toLower :=
  Text.lower_ascii fun c hc => isWordChar_ascii (hw.all c hc)

end SeriesQuery.Rendering

namespace SeriesQuery.Reading

open SeriesQuery.Text (isBlank)
open SeriesQuery.Rendering
open Rule

variable {s r : List Char}

/-! ## Keywords and words -/

/-- A keyword is read in any letter case and ends where a word ends. -/
theorem keyword_took {w : String} {u : Unit} :
    keyword w s = .took u r ↔ ∃ l, Keyword w l ∧ l.At s r := by
  simp only [keyword, bind_took, spelled_took, absent_took, satisfy_declines]
  constructor
  case mp =>
    rintro ⟨-, m, ⟨same, hm⟩, hr, rfl⟩
    refine ⟨_, .intro same, ?_, hr⟩
    rw [← hm]
    exact (List.take_append_drop _ _).symm
  case mpr =>
    rintro ⟨_, ⟨same⟩, rfl, hr⟩
    rename_i cs
    have length : w.toList.length = cs.length := by rw [← same, List.length_map]
    refine ⟨(), r, ?_, hr, rfl⟩
    simpa [plain, length, SameLetters] using same

/-- A text that begins with another letter than a keyword does not hold it. -/
theorem keyword_declines {w : String} {c : Char} (hw : w.toList.head? = some c)
    (h : ∀ d ∈ s.head?, d.toLower ≠ c) : Declines (keyword w) s := by
  obtain ⟨cs, hcs⟩ := List.head?_eq_some_iff.1 hw
  refine bind_declines.2 (.inl (spelled_declines.2 ?_))
  rw [hcs]
  cases s with
  | nil => simp
  | cons d s =>
    intro same
    exact h d rfl (by simpa using (List.cons.inj same).1)

/-- Where one keyword stands, none with another first letter does. -/
theorem keyword_excludes {w w' : String} {c c' : Char} {u : Unit}
    (h : keyword w s = .took u r) (hw : w.toList.head? = some c)
    (hw' : w'.toList.head? = some c') (ne : c ≠ c') :
    Declines (keyword w') s := by
  obtain ⟨l, hl, stands⟩ := keyword_took.1 h
  obtain ⟨d, ds, chars, rfl⟩ := hl.head hw
  refine keyword_declines hw' ?_
  rw [stands.1, chars]
  rintro _ ⟨⟩
  exact ne

/-- A keyword that was read behind blanks is laid out there. -/
theorem keyword_sound {w : String} {u : Unit} (firm : Firm w)
    (h : keyword w (s.dropWhile isBlank) = .took u r) :
    ∃ k, Keyword w k ∧ Laid [k] s r := by
  obtain ⟨k, hk, stands⟩ := keyword_took.1 h
  exact ⟨k, hk, (Lexeme.laid_iff (hk.solid firm)).2 stands⟩

/-- A keyword that is laid out is read behind blanks. -/
theorem keyword_complete {w : String} {k : Lexeme} (firm : Firm w) (hk : Keyword w k)
    (laid : Laid [k] s r) : keyword w (s.dropWhile isBlank) = .took () r :=
  keyword_took.2 ⟨k, hk, (Lexeme.laid_iff (hk.solid firm)).1 laid⟩

/-- What a word, or a name of a wider class, looks like in a text. -/
theorem spells_took {p : Char → Bool} {w : String} :
    (do
      let c ← satisfy isWordStart
      let cs ← run p
      return String.ofList (c :: cs) : Rule String) s = .took w r ↔
      Spells p w ∧ (Lexeme.mk w.toList p).At s r := by
  simp only [bind_took, satisfy_took, run_took, pure_took]
  constructor
  case mp =>
    rintro ⟨c, _, ⟨rfl, hc⟩, cs, _, ⟨rfl, hcs, hr⟩, rfl, rfl⟩
    exact ⟨⟨c, cs, by simp, hc, hcs⟩, by simp, hr⟩
  case mpr =>
    rintro ⟨⟨c, cs, hw, hc, hcs⟩, rfl, hr⟩
    refine ⟨c, cs ++ r, ⟨by simp [hw], hc⟩, cs, r, ⟨rfl, hcs, hr⟩, ?_, rfl⟩
    rw [← hw, String.ofList_toList]

/-- A word is read as far as it goes. -/
theorem word_took {w : String} :
    word s = .took w r ↔ IsWord w ∧ (plain w.toList).At s r := spells_took

/-- A text whose first character begins no word holds none. -/
theorem word_declines (h : ∀ c ∈ s.head?, isWordStart c = false) : Declines word s :=
  bind_declines.2 (.inl (satisfy_declines.2 h))

/-- A word is read behind blanks. -/
theorem word_reads :
    Reads (spaced word) (fun w ts => IsWord w ∧ WordForm w ts) anything := by
  refine reads_single ?_ ?_
  · rintro w _ ⟨hw, ⟨⟩⟩
    exact ⟨_, rfl, hw.solid⟩
  · intro s r w
    rw [word_took]
    constructor
    case mp => exact fun ⟨hw, stands⟩ => ⟨_, ⟨hw, .intro w⟩, stands⟩
    case mpr =>
      rintro ⟨_, ⟨hw, ⟨⟩⟩, stands⟩
      exact ⟨hw, stands⟩

/-- Two rows of word characters at one place are the same if neither goes on. -/
theorem plain_unique {cs cs' r' : List Char} (first : (plain cs).At s r)
    (second : (plain cs').At s r') (all : ∀ c ∈ cs, isWordChar c = true)
    (all' : ∀ c ∈ cs', isWordChar c = true) : cs = cs' ∧ r = r' := by
  obtain ⟨h, h'⟩ := span_eq_iff.2 ⟨first.1, all, first.2⟩
  obtain ⟨k, k'⟩ := span_eq_iff.2 ⟨second.1, all', second.2⟩
  exact ⟨h.symm.trans k, h'.symm.trans k'⟩

/-- A word that is written like a keyword is read as one. -/
theorem keyword_of_word {v w : String} (same : SameLetters v.toList w)
    (stands : (plain v.toList).At s r) : keyword w s = .took () r :=
  keyword_took.2 ⟨_, .intro same, stands⟩

/-- A keyword that is not taken is declined. -/
theorem keyword_declines_of_not_took {w : String} (h : ∀ u r, keyword w s ≠ .took u r) :
    Declines (keyword w) s := by
  by_cases same : (s.take w.toList.length).map Char.toLower = w.toList
  · refine bind_declines.2
      (.inr ⟨(), _, spelled_took.2 ⟨same, rfl⟩, absent_declines.2 ?_⟩)
    by_contra none
    refine h ()
      _ (bind_took.2 ⟨(), _, spelled_took.2 ⟨same, rfl⟩, absent_took.2 ⟨?_, rfl⟩⟩)
    refine satisfy_declines.2 fun c hc => Bool.eq_false_iff.2 fun word => none ?_
    obtain ⟨cs, hcs⟩ := List.head?_eq_some_iff.1 hc
    exact ⟨c, cs, satisfy_took.2 ⟨hcs, word⟩⟩
  · exact bind_declines.2 (.inl (spelled_declines.2 same))

/-- A word that is not written like a keyword is not read as one. -/
theorem keyword_declines_of_word {v w : String} (hv : IsWord v)
    (stands : (plain v.toList).At s r) (hw : w.toList.all isWordChar = true)
    (ne : ¬ SameLetters v.toList w) : Declines (keyword w) s := by
  refine keyword_declines_of_not_took fun _ r' h => ne ?_
  obtain ⟨_, ⟨same⟩, stands'⟩ := keyword_took.1 h
  rename_i cs
  have all : ∀ c ∈ cs, isWordChar c = true := by
    intro c hc
    rw [← isWordChar_toLower]
    exact List.all_eq_true.1 hw _ (same ▸ List.mem_map_of_mem hc)
  rw [(plain_unique stands stands' hv.all all).1]
  exact same

/-! ## Quoted texts -/

/-- The body of a quoted text as far as its end goes: a backslash takes the character
after it along, whatever that is. -/
inductive Scanned (quote : Char) : List Char → Prop
  | nil : Scanned quote []
  | plain {c : Char} {body : List Char} : c ≠ quote → c ≠ '\\' → Scanned quote body →
      Scanned quote (c :: body)
  | pair {c : Char} {body : List Char} : Scanned quote body →
      Scanned quote ('\\' :: c :: body)

/-- What can be read ends where it is closed. -/
theorem scanned_of_body {q : Char} {body value : List Char} (h : Body q body value) :
    Scanned q body := by
  induction h with
  | nil => exact .nil
  | plain ne plain _ ih => exact .plain ne plain ih
  | escape _ _ ih => exact .pair ih

/-- The body of a quoted text ends at the first quote that is not escaped. -/
theorem splitQuoted_eq_some {q : Char} {body : List Char} (hq : q ≠ '\\') :
    splitQuoted q s = some (body, r) ↔ Scanned q body ∧ s = body ++ q :: r := by
  constructor
  case mp =>
    intro split
    fun_induction splitQuoted q s generalizing body with
    | case1 => cases split
    | case2 => cases split
    | case3 c s ih =>
      obtain ⟨⟨b, _⟩, hb, h⟩ := Option.map_eq_some_iff.1 split
      obtain ⟨rfl, rfl⟩ := Prod.mk.inj h
      obtain ⟨scanned, rfl⟩ := ih hb
      exact ⟨.pair scanned, rfl⟩
    | case4 s =>
      cases split
      exact ⟨.nil, rfl⟩
    | case5 c s dangling escape ne ih =>
      have plain : c ≠ '\\' := by
        rintro rfl
        cases s with
        | nil => exact dangling rfl rfl
        | cons d s => exact escape d s rfl rfl
      obtain ⟨⟨b, _⟩, hb, h⟩ := Option.map_eq_some_iff.1 split
      obtain ⟨rfl, rfl⟩ := Prod.mk.inj h
      obtain ⟨scanned, rfl⟩ := ih hb
      exact ⟨.plain ne plain scanned, rfl⟩
  case mpr =>
    rintro ⟨scanned, rfl⟩
    induction scanned with
    | nil =>
      rw [List.nil_append, splitQuoted, if_pos rfl]
      · exact fun h => absurd h hq
      · exact fun _ _ h => absurd h hq
    | plain ne plain _ ih =>
      rw [List.cons_append, splitQuoted, if_neg ne, ih]
      · rfl
      · exact fun h => absurd h plain
      · exact fun _ _ h => absurd h plain
    | pair _ ih =>
      rw [List.cons_append, List.cons_append, splitQuoted, ih]
      rfl

/-- What stands for itself goes before what the rest stands for. -/
theorem unescape_plain {c : Char} {body : List Char} (hc : c ≠ '\\') :
    unescape (c :: body) = (unescape body).map (c :: ·) := by
  rw [unescape]
  · exact fun h => absurd h hc
  · exact fun _ _ h => absurd h hc

/-- What a legible body stands for goes before what the rest stands for. -/
theorem unescape_append {q : Char} {body value : List Char} (h : Body q body value)
    (rest : List Char) :
    unescape (body ++ rest) = (unescape rest).map (value ++ ·) := by
  induction h with
  | nil => cases h : unescape rest <;> simp [h, Except.map]
  | plain _ plain _ ih =>
    rw [List.cons_append, unescape_plain plain, ih]
    cases unescape rest <;> rfl
  | escape hd _ ih =>
    rw [List.cons_append, List.cons_append, unescape, hd, ih]
    cases unescape rest <;> rfl

/-- A body that is closed can be read if all its escapes can. -/
theorem unescape_eq_ok {q : Char} {body value : List Char} (scanned : Scanned q body) :
    unescape body = .ok value ↔ Body q body value := by
  constructor
  case mp =>
    intro h
    induction scanned generalizing value with
    | nil =>
      cases h
      exact .nil
    | plain ne plain _ ih =>
      rw [unescape_plain plain] at h
      obtain ⟨v, hv, rfl⟩ := Fallible.map_eq_ok_iff.1 h
      exact .plain ne plain (ih hv)
    | @pair c body _ ih =>
      rw [unescape] at h
      cases hd : escapeLetter? c with
      | none => simp [hd] at h
      | some d =>
        rw [hd] at h
        obtain ⟨v, hv, rfl⟩ := Fallible.map_eq_ok_iff.1 h
        exact .escape hd (ih hv)
  case mpr =>
    intro h
    have whole := unescape_append h []
    simpa [unescape, Except.map] using whole

/-- Of a body that is closed the first escape that cannot be read is at fault. -/
theorem unescape_eq_error {q : Char} {body : List Char} {fault : LiteralFault}
    (scanned : Scanned q body) :
    unescape body = .error fault ↔
      ∃ before value c after,
        body = before ++ '\\' :: c :: after ∧ Body q before value ∧
        escapeLetter? c = none ∧ Scanned q after ∧ fault = .invalidEscape c := by
  constructor
  case mp =>
    intro h
    induction scanned with
    | nil => cases h
    | @plain d body ne plain _ ih =>
      rw [unescape_plain plain, Fallible.map_eq_error_iff] at h
      obtain ⟨before, value, c, after, rfl, legible, hc, closed, rfl⟩ := ih h
      exact ⟨d :: before, d :: value, c, after, rfl, .plain ne plain legible,
        hc, closed, rfl⟩
    | @pair d body scanned ih =>
      rw [unescape] at h
      cases hd : escapeLetter? d with
      | none =>
        simp only [hd] at h
        cases h
        exact ⟨[], [], d, body, rfl, .nil, hd, scanned, rfl⟩
      | some e =>
        simp only [hd, Fallible.map_eq_error_iff] at h
        obtain ⟨before, value, c, after, rfl, legible, hc, closed, rfl⟩ := ih h
        exact ⟨'\\' :: d :: before, e :: value, c, after, rfl, .escape hd legible,
          hc, closed, rfl⟩
  case mpr =>
    rintro ⟨before, value, c, after, rfl, legible, hc, -, rfl⟩
    rw [unescape_append legible, unescape, hc]
    rfl

/-- A text that begins with no quote is no quoted text. -/
theorem quotedText_declines (h : ∀ c ∈ s.head?, c ≠ '"' ∧ c ≠ '\'') :
    Declines quotedText s := by
  cases s with
  | nil => exact ⟨_, rfl⟩
  | cons c s =>
    obtain ⟨double, single⟩ := h c rfl
    exact ⟨_, by rw [quotedText, if_neg (by simp [double, single])]⟩

/-- Quotes are no backslashes. -/
theorem quote_ne_slash {q : Char} (hq : q = '"' ∨ q = '\'') : q ≠ '\\' := by
  rcases hq with rfl | rfl <;> decide

/-- After an opening quote the body decides. -/
theorem quotedText_cons_took {q : Char} {v : List Char} (hq : q = '"' ∨ q = '\'') :
    quotedText (q :: s) = .took v r ↔ ∃ body, Body q body v ∧ s = body ++ q :: r := by
  have slash := quote_ne_slash hq
  rw [quotedText, if_pos (by simpa using hq)]
  constructor
  case mp =>
    intro h
    cases split : splitQuoted q s with
    | none => simp [split] at h
    | some p =>
      obtain ⟨body, rest⟩ := p
      obtain ⟨scanned, rfl⟩ := (splitQuoted_eq_some slash).1 split
      rw [split] at h
      cases legible : unescape body with
      | error fault => simp [legible] at h
      | ok value =>
        obtain ⟨rfl, rfl⟩ : value = v ∧ rest = r := by simpa [legible] using h
        exact ⟨body, (unescape_eq_ok scanned).1 legible, rfl⟩
  case mpr =>
    rintro ⟨body, legible, rfl⟩
    have scanned := scanned_of_body legible
    rw [(splitQuoted_eq_some slash).2 ⟨scanned, rfl⟩]
    simp only [(unescape_eq_ok scanned).2 legible]

/-- A quoted text is read up to its closing quote. -/
theorem quotedText_took {v : List Char} :
    quotedText s = .took v r ↔ ∃ l, Quoted v l ∧ l.At s r := by
  constructor
  case mp =>
    intro h
    cases s with
    | nil => simp [quotedText] at h
    | cons q s =>
      by_cases hq : q = '"' ∨ q = '\''
      · obtain ⟨body, legible, rfl⟩ := (quotedText_cons_took hq).1 h
        exact ⟨_, .intro hq legible, by simp, by simp⟩
      · refine absurd h (quotedText_declines ?_).not_took
        simpa [not_or] using hq
  case mpr =>
    rintro ⟨_, ⟨hq, legible⟩, rfl, -⟩
    rename_i q body
    rw [List.cons_append, List.append_assoc, quotedText_cons_took hq]
    exact ⟨body, legible, by simp⟩

/-- A quoted text begins with one of the quotes. -/
theorem quoted_head {v : List Char} {l : Lexeme} (h : Quoted v l) :
    ∃ q cs, l.chars = q :: cs ∧ (q = '"' ∨ q = '\'') := by
  obtain ⟨hq, -⟩ := h
  exact ⟨_, _, rfl, hq⟩

/-- A quoted text is solid. -/
theorem quoted_solid {v : List Char} {l : Lexeme} (h : Quoted v l) : l.Solid := by
  obtain ⟨q, cs, hl, hq⟩ := quoted_head h
  exact ⟨q, cs, hl, by rcases hq with rfl | rfl <;> decide⟩

/-- A quoted text is read behind blanks. -/
theorem quotedText_reads :
    Reads (spaced quotedText) (fun v ts => ∃ l, Quoted v l ∧ ts = [l]) anything :=
  reads_lexeme Quoted quoted_solid quotedText_took

/-- A quoted text as a string. -/
theorem quotedString_took {v : String} :
    quotedString s = .took v r ↔ ∃ l, Quoted v.toList l ∧ l.At s r := by
  simp only [quotedString, bind_took, quotedText_took, pure_took]
  constructor
  case mp =>
    rintro ⟨cs, _, ⟨l, hl, stands⟩, rfl, rfl⟩
    exact ⟨l, by simpa using hl, stands⟩
  case mpr =>
    rintro ⟨l, hl, stands⟩
    exact ⟨v.toList, r, ⟨l, hl, stands⟩, by simp, rfl⟩

/-- A quoted string is read behind blanks. -/
theorem quotedString_reads :
    Reads (spaced quotedString)
    (fun (v : String) ts => ∃ l, Quoted v.toList l ∧ ts = [l])
      anything :=
  reads_lexeme (fun (v : String) l => Quoted v.toList l) quoted_solid quotedString_took

/-! ## Names and tag values -/

/-- What a quoted text begins with begins nothing else. -/
theorem quotedString_declines (h : ∀ c ∈ s.head?, isBareChar c = true) :
    Declines quotedString s := by
  refine bind_declines.2 (.inl (quotedText_declines fun c hc => ?_))
  have bare := h c hc
  constructor <;> rintro rfl <;> exact absurd bare (by decide)

/-- Word beginnings may stand in names, and those in tag values. -/
theorem isBareChar_of_isWordStart {c : Char} (h : isWordStart c = true) :
    isBareChar c = true := by
  simp [isBareChar, isNameChar, isWordChar_of_isWordStart h]

/-- A name, quoted or not. -/
theorem name_took {v : String} : name s = .took v r ↔
    ∃ l, NameForm v [l] ∧ l.At s r := by
  rw [name, orElse_took, quotedString_took, bareName, spells_took]
  constructor
  case mp =>
    rintro (⟨l, hl, stands⟩ | ⟨-, hv, stands⟩)
    · exact ⟨l, .quoted hl, stands⟩
    · exact ⟨_, .bare hv, stands⟩
  case mpr =>
    rintro ⟨_, hl | hv, stands⟩
    · exact .inl ⟨_, hl, stands⟩
    · refine .inr ⟨quotedString_declines fun c hc => ?_, hv, stands⟩
      obtain ⟨d, ds, hds, hd, -⟩ := hv
      rw [stands.1, hds] at hc
      obtain rfl : d = c := by simpa using hc
      exact isBareChar_of_isWordStart hd

/-- A tag value, quoted or not. -/
theorem tagValue_took {v : String} :
    tagValue s = .took v r ↔ ∃ l, TagValueForm v [l] ∧ l.At s r := by
  simp only [tagValue, orElse_took, quotedString_took, bind_took, run1_took, pure_took]
  constructor
  case mp =>
    rintro (⟨l, hl, stands⟩ | ⟨-, cs, m, ⟨ne, hs, all, stop⟩, rfl, rfl⟩)
    · exact ⟨l, .quoted hl, stands⟩
    · exact ⟨_, .bare (by simpa using ne) (by simpa using all), by simpa using hs, stop⟩
  case mpr =>
    rintro ⟨_, hl | ⟨ne, all⟩, hs, stop⟩
    · exact .inl ⟨_, hl, hs, stop⟩
    · refine .inr ⟨quotedString_declines fun c hc => ?_, v.toList, r,
        ⟨ne, hs, all, stop⟩, by simp, rfl⟩
      obtain ⟨d, ds, hds⟩ := List.exists_cons_of_ne_nil ne
      rw [hs, hds] at hc
      obtain rfl : d = c := by simpa using hc
      exact all d (by simp [hds])

/-- A name is read behind blanks. -/
theorem name_reads : Reads (spaced name) NameForm anything := by
  refine reads_single ?_ name_took
  rintro v _ (hl | hv)
  · exact ⟨_, rfl, quoted_solid hl⟩
  · exact ⟨_, rfl, hv.solid⟩

/-- A name begins with a quote, a letter or an underscore. -/
theorem name_head {v : String} {ts ls : List Lexeme} (form : NameForm v ts)
    (laid : Laid (ts ++ ls) s r) :
    ∃ c ∈ (s.dropWhile isBlank).head?, c = '"' ∨ c = '\'' ∨ isWordStart c = true := by
  cases form with
  | quoted hl =>
    obtain ⟨q, cs, chars, quote⟩ := quoted_head hl
    exact ⟨q, laid_head laid chars (by rcases quote with rfl | rfl <;> decide),
      quote.imp_right .inl⟩
  | bare hv =>
    obtain ⟨c, cs, chars, hc, -⟩ := hv
    exact ⟨c, laid_head laid chars (isBlank_eq_false hc (by decide)), .inr (.inr hc)⟩

/-- A tag value is read behind blanks. -/
theorem tagValue_reads : Reads (spaced tagValue) TagValueForm anything := by
  refine reads_single ?_ tagValue_took
  rintro v _ (hl | ⟨ne, all⟩)
  · exact ⟨_, rfl, quoted_solid hl⟩
  · obtain ⟨d, ds, hds⟩ := List.exists_cons_of_ne_nil ne
    exact ⟨_, rfl, d, ds, hds, isBlank_eq_false (all d (by simp [hds])) (by decide)⟩

/-! ## Signs and separators -/

/-- A sign that was read behind blanks is laid out there. -/
theorem char_sound {c d : Char} (solid : isBlank c = false)
    (h : char c (s.dropWhile isBlank) = .took d r) : Laid [sign c] s r := by
  obtain ⟨-, h⟩ := char_took.1 h
  exact (Lexeme.laid_iff (sign_solid solid)).2 ⟨h, by simp [sign]⟩

/-- A sign that is laid out is read behind blanks. -/
theorem char_complete {c : Char} (solid : isBlank c = false)
    (laid : Laid [sign c] s r) : char c (s.dropWhile isBlank) = .took c r :=
  char_took.2 ⟨rfl, ((Lexeme.laid_iff (sign_solid solid)).1 laid).1⟩

/-- The comma with blanks around it separates. -/
theorem comma_separates : Separates comma IsComma where
  solid := by
    rintro _ rfl
    exact sign_solid (by decide)
  took := by
    intro s r
    simp only [comma, bind_took, blanks_took]
    constructor
    case mp =>
      rintro ⟨_, _, rfl, c, m, h, rfl⟩
      exact ⟨_, m, rfl, char_sound (by decide) h, rfl⟩
    case mpr =>
      rintro ⟨_, m, rfl, laid, rfl⟩
      exact ⟨(), _, rfl, ',', m, char_complete (by decide) laid, rfl⟩

/-- The word `and` with blanks around it separates. -/
theorem conjunction_separates : Separates conjunction (Keyword "and") where
  solid h := h.solid (by decide)
  took := by
    intro s r
    simp only [conjunction, bind_took, blanks_took]
    constructor
    case mp =>
      rintro ⟨_, _, rfl, _, m, h, rfl⟩
      obtain ⟨l, hl, laid⟩ := keyword_sound (by decide) h
      exact ⟨l, m, hl, laid, rfl⟩
    case mpr =>
      rintro ⟨l, m, hl, laid, rfl⟩
      exact ⟨(), _, rfl, (), m, keyword_complete (by decide) hl laid, rfl⟩

/-! ## What follows -/

/-- Behind blanks a text goes on with one of some characters, in small letters, or it
ends. -/
def Follows (first : List Char) (r : List Char) : Prop :=
  ∀ c ∈ (r.dropWhile isBlank).head?, c.toLower ∈ first

/-- The first character of a text is a blank, or the one behind the blanks. -/
theorem isBlank_or_head {c : Char} (hc : c ∈ s.head?) :
    isBlank c = true ∨ c ∈ (s.dropWhile isBlank).head? := by
  obtain ⟨cs, rfl⟩ := List.head?_eq_some_iff.1 hc
  by_cases blank : isBlank c = true
  · exact .inl blank
  · exact .inr (by simp [blank])

/-- Fewer characters may be asked for. -/
theorem Follows.mono {first more : List Char} (h : Follows first r)
    (sub : first ⊆ more) :
    Follows more r := fun c hc => sub (h c hc)

/-- Nothing follows at the end. -/
theorem follows_of_gap {first : List Char} (h : Gap r []) : Follows first r := by
  rw [Follows, gap_nil_iff.1 h]
  simp

/-- A lexeme that is solid is what follows. -/
theorem follows_of_solid {c : Char} {cs : List Char} {l : Lexeme} {ls : List Lexeme}
    {first : List Char} (laid : Laid (l :: ls) s r) (chars : l.chars = c :: cs)
    (solid : isBlank c = false) (mem : c.toLower ∈ first) : Follows first s := by
  rw [Follows, laid_head laid chars solid]
  simpa using mem

/-- A sign is what follows. -/
theorem follows_of_sign {c : Char} {ls : List Lexeme} {first : List Char}
    (laid : Laid (sign c :: ls) s r) (solid : isBlank c = false)
    (mem : c.toLower ∈ first) :
    Follows first s := follows_of_solid laid rfl solid mem

/-- The first letter of a keyword is what follows. -/
theorem follows_of_keyword {w : String} {c : Char} {l : Lexeme} {ls : List Lexeme}
    {first : List Char} (laid : Laid (l :: ls) s r) (keyword : Keyword w l)
    (hw : w.toList.head? = some c) (solid : isBlank c = false) (mem : c ∈ first) :
    Follows first s := by
  obtain ⟨d, ds, hl, rfl⟩ := keyword.head hw
  exact follows_of_solid laid hl (isBlank_of_toLower solid) mem

/-- No comma is taken where something else follows. -/
theorem Follows.comma_declines {first : List Char} (h : Follows first r)
    (none : ',' ∉ first) : Declines comma r := by
  simp only [comma, bind_declines, blanks_took, blanks_declines, char_declines,
    false_or]
  exact ⟨(), _, rfl, .inl fun hc => none (h ',' hc)⟩

/-- No keyword is taken where something else follows. -/
theorem Follows.keyword_declines {first : List Char} {w : String} {c : Char}
    (h : Follows first r) (hw : w.toList.head? = some c) (none : c ∉ first) :
    Declines (keyword w) (r.dropWhile isBlank) :=
  Reading.keyword_declines hw fun d hd hc => none (hc ▸ h d hd)

/-- No conjunction is taken where something else follows. -/
theorem Follows.conjunction_declines {first : List Char} (h : Follows first r)
    (none : 'a' ∉ first) : Declines conjunction r := by
  simp only [conjunction, bind_declines, blanks_took, blanks_declines, false_or]
  exact ⟨(), _, rfl, .inl (h.keyword_declines rfl none)⟩

end SeriesQuery.Reading
