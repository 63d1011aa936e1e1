import SeriesQuery.Proofs.Json.Numerals

/-!
# Written values read back

A value that is written is read again as one tree, whatever comes after it: a text
literal gives its text, a numeral its spelling, and items and members come back in the
order in which they were written.  The numbers of the value have to read back.

## Main results

* `readText_escaped`: an escaped text is read up to its closing quote.
* `readValue_written`: a written value is read as the tree of the value.
* `Document.read_written`: so is a text that holds nothing else.
-/

namespace SeriesQuery.Json

open SeriesQuery.Text (isBlank)
open SeriesQuery.Decimal (Spelling)

/-! ## Text literals -/

/-- A hexadecimal digit has its value. -/
private theorem hexValue?_hexDigit {n : Nat} (h : n < 16) :
    hexValue? (hexDigit n) = some n := by
  have hall : ∀ m < 16, hexValue? (hexDigit m) = some m := by decide
  exact hall n h

/-- The characters that are escaped by a letter. -/
def lettered : List Char := ['"', '\\', '\x08', '\x0c', '\n', '\r', '\t']

/-- The piece that an escaped character is read as. -/
def Piece.ofChar (c : Char) : Piece :=
  if c.toNat < 32 ∧ c ∉ lettered then .unit c.toNat else .plain c

/-- A letter escape is read as its character. -/
private theorem pieces?_letter {c d : Char} (hd : escapeLetter? c = some d)
    (hc : c ≠ 'u') (s : List Char) :
    pieces? ('\\' :: c :: s) = (pieces? s).map fun p => (.plain d :: p.1, p.2) := by
  rw [pieces?.eq_4 c s fun _ _ _ _ _ h _ => hc h, hd]
  cases pieces? s <;> rfl

/-- The number of a control character is read from its two last digits. -/
theorem hexNumber?_control {c : Char} (h : c.toNat < 32) :
    hexNumber? '0' '0' (hexDigit (c.toNat / 16)) (hexDigit c.toNat) = some c.toNat := by
  have hhigh := hexValue?_hexDigit (n := c.toNat / 16) (by omega)
  have hlow : hexValue? (hexDigit c.toNat) = some (c.toNat % 16) := by
    have hdigit : hexDigit c.toNat = hexDigit (c.toNat % 16) := by simp [hexDigit]
    rw [hdigit]
    exact hexValue?_hexDigit (by omega)
  have hzero : hexValue? '0' = some 0 := by decide
  simp only [hexNumber?, hzero, hhigh, hlow, Option.bind_eq_bind, Option.bind_some,
    Option.pure_def, Option.some.injEq]
  omega

/-- An escaped character is read as one piece. -/
theorem pieces?_escapedChar (c : Char) (s : List Char) :
    pieces? (escapedChar c ++ s) =
      (pieces? s).map fun p => (Piece.ofChar c :: p.1, p.2) := by
  by_cases hletter : c ∈ lettered
  · simp only [lettered, List.mem_cons, List.not_mem_nil, or_false] at hletter
    rcases hletter with rfl | rfl | rfl | rfl | rfl | rfl | rfl <;>
      exact pieces?_letter rfl (by decide) s
  · have hother := hletter
    simp only [lettered, List.mem_cons, List.not_mem_nil, or_false, not_or] at hother
    by_cases hsmall : c.toNat < 32
    · have hescaped : escapedChar c =
          ['\\', 'u', '0', '0', hexDigit (c.toNat / 16), hexDigit c.toNat] := by
        simp [escapedChar, hother, hsmall]
      rw [hescaped, Piece.ofChar, if_pos ⟨hsmall, hletter⟩]
      simp only [List.cons_append, List.nil_append]
      rw [pieces?.eq_3, hexNumber?_control hsmall]
      cases pieces? s <;> rfl
    · have hescaped : escapedChar c = [c] := by simp [escapedChar, hother, hsmall]
      have hplain : ¬ ((decide (c.toNat < 32) || decide (c = '\\')) = true) := by
        simp [hother.2.1, hsmall]
      rw [hescaped, Piece.ofChar, if_neg fun h => hsmall h.1, List.singleton_append,
        pieces?.eq_5 c s hother.1 (fun _ _ _ _ _ h _ => hother.2.1 h)
          (fun _ _ h _ => hother.2.1 h), if_neg hplain]
      cases pieces? s <;> rfl

/-- A control character spells itself, whatever comes after it. -/
theorem joinPieces_control {n : Nat} (h : n < 32) (ps : List Piece) :
    joinPieces (.unit n :: ps) = (joinPieces ps).map (Char.ofNat n :: ·) := by
  have hhigh : isHighHalf n = false := by
    simp only [isHighHalf, Bool.and_eq_false_iff, decide_eq_false_iff_not]
    omega
  have hlow : isLowHalf n = false := by
    simp only [isLowHalf, Bool.and_eq_false_iff, decide_eq_false_iff_not]
    omega
  cases ps with
  | nil => simp [joinPieces, hhigh, hlow]
  | cons p ps =>
      cases p with
      | plain d => simp [joinPieces, hhigh, hlow]
      | unit m =>
          rw [joinPieces]
          simp [hhigh, hlow]

/-- The pieces of characters spell the characters. -/
theorem joinPieces_ofChar (cs : List Char) :
    joinPieces (cs.map Piece.ofChar) = some cs := by
  induction cs with
  | nil => rfl
  | cons c cs ih =>
      rw [List.map_cons, Piece.ofChar]
      by_cases h : c.toNat < 32 ∧ c ∉ lettered
      · rw [if_pos h, joinPieces_control h.1, ih, Char.ofNat_toNat]
        rfl
      · rw [if_neg h, joinPieces, ih]
        rfl

/-- An escaped text is read up to its closing quote. -/
theorem readText_escaped (s : String) (rest : List Char) :
    readText (s.toList.flatMap escapedChar ++ '"' :: rest) = some (some s, rest) := by
  have hpieces : ∀ cs : List Char,
      pieces? (cs.flatMap escapedChar ++ '"' :: rest) =
      some (cs.map Piece.ofChar, rest) := by
    intro cs
    induction cs with
    | nil => rfl
    | cons c cs ih =>
        rw [List.flatMap_cons, List.append_assoc, pieces?_escapedChar, ih]
        rfl
  simp only [readText, hpieces, Option.map_some, joinPieces_ofChar,
    String.ofList_toList]

/-! ## The tree of a value -/

/-- The numeral that a number is written as. -/
def Number.spelling (n : Number) : Spelling :=
  ((readNumber? n.written).map (·.1)).getD ⟨false, [], [], false, []⟩

mutual

/-- The tree as which a written value is read. -/
def Tree.ofValue : Value → Tree
  | .null => .null
  | .bool b => .bool b
  | .number n => .number n.spelling
  | .text s => .text (some s)
  | .array items => .array (Tree.ofItems items)
  | .object members => .object (Tree.ofMembers members)

/-- The trees of items. -/
def Tree.ofItems : List Value → List Tree
  | [] => []
  | v :: vs => Tree.ofValue v :: Tree.ofItems vs

/-- The trees of members. -/
def Tree.ofMembers : List (String × Value) → List (Option String × Tree)
  | [] => []
  | (k, v) :: ms => (some k, Tree.ofValue v) :: Tree.ofMembers ms

end

theorem Tree.ofItems_eq_map (vs : List Value) :
    Tree.ofItems vs = vs.map Tree.ofValue := by
  induction vs with
  | nil => rfl
  | cons v vs ih => rw [Tree.ofItems, ih, List.map_cons]

mutual

/-- The numbers in a value, in the order written. -/
def Value.numbers : Value → List Number
  | .number n => [n]
  | .array items => Value.itemNumbers items
  | .object members => Value.memberNumbers members
  | _ => []

/-- The numbers in items. -/
def Value.itemNumbers : List Value → List Number
  | [] => []
  | v :: vs => v.numbers ++ Value.itemNumbers vs

/-- The numbers in members. -/
def Value.memberNumbers : List (String × Value) → List Number
  | [] => []
  | (_, v) :: ms => v.numbers ++ Value.memberNumbers ms

end

/-- All numbers in a value read back. -/
def Value.ReadsBack (v : Value) : Prop := ∀ n ∈ v.numbers, n.ReadsBack

theorem mem_itemNumbers {n : Number} {vs : List Value} :
    n ∈ Value.itemNumbers vs ↔ ∃ v ∈ vs, n ∈ v.numbers := by
  induction vs with
  | nil => simp [Value.itemNumbers]
  | cons v vs ih => simp [Value.itemNumbers, ih]

theorem mem_memberNumbers {n : Number} {ms : List (String × Value)} :
    n ∈ Value.memberNumbers ms ↔ ∃ m ∈ ms, n ∈ m.2.numbers := by
  induction ms with
  | nil => simp [Value.memberNumbers]
  | cons m ms ih => simp [Value.memberNumbers, ih]

@[simp] theorem Value.readsBack_array {vs : List Value} :
    (Value.array vs).ReadsBack ↔ ∀ v ∈ vs, v.ReadsBack := by
  unfold Value.ReadsBack
  simp only [Value.numbers, mem_itemNumbers]
  exact ⟨fun h v hv n hn => h n ⟨v, hv, hn⟩, fun h n ⟨v, hv, hn⟩ => h v hv n hn⟩

@[simp] theorem Value.readsBack_object {ms : List (String × Value)} :
    (Value.object ms).ReadsBack ↔ ∀ m ∈ ms, m.2.ReadsBack := by
  unfold Value.ReadsBack
  simp only [Value.numbers, mem_memberNumbers]
  exact ⟨fun h m hm n hn => h n ⟨m, hm, hn⟩, fun h n ⟨m, hm, hn⟩ => h m hm n hn⟩

@[simp] theorem Value.readsBack_number {n : Number} :
    (Value.number n).ReadsBack ↔ n.ReadsBack := by
  simp [Value.ReadsBack, Value.numbers]

/-! ## Reading what was written -/

/-- A numeral begins with a minus sign or a digit. -/
theorem head_of_readNumber? {s : List Char} {p : Spelling × List Char}
    (h : readNumber? s = some p) :
    ∃ c cs, s = c :: cs ∧ (c = '-' ∨ c.isDigit = true) := by
  cases s with
  | nil => cases h
  | cons c cs =>
      refine ⟨c, cs, rfl, ?_⟩
      by_cases hc : c = '-'
      · exact Or.inl hc
      · rw [readNumber?.eq_2 _ fun u hu => hc (List.cons.inj hu).1] at h
        simp only [readMagnitude?, Option.bind_eq_bind, Option.bind_eq_some_iff,
          Prod.exists] at h
        obtain ⟨ds, r, hwhole, -⟩ := h
        obtain ⟨htake, -, hne, -⟩ := wholeDigits?_eq_some.1 hwhole
        by_cases hdigit : c.isDigit = true
        · exact Or.inr hdigit
        · rw [List.takeWhile_cons_of_neg hdigit] at htake
          exact absurd htake.symm hne

/-- A number is read up to where its numeral ends. -/
private theorem readNumber?_written {n : Number} (h : n.ReadsBack) {rest : List Char}
    (hrest : EndsNumeral rest) :
    readNumber? (n.written ++ rest) = some (n.spelling, rest) := by
  obtain ⟨s, hs, -⟩ := h
  have hspelling : n.spelling = s := by simp [Number.spelling, hs]
  rw [hspelling]
  exact readNumber?_append hrest hs

/-- A written value begins with a character that is neither blank nor a closing
bracket. -/
theorem head_written {v : Value} (h : v.ReadsBack) :
    ∃ c cs, v.written = c :: cs ∧ isBlank c = false ∧ c ≠ ']' := by
  cases v with
  | null => exact ⟨'n', _, rfl, by decide, by decide⟩
  | bool b => cases b <;> exact ⟨_, _, rfl, by decide, by decide⟩
  | number n =>
      obtain ⟨s, hs, -⟩ := Value.readsBack_number.1 h
      obtain ⟨c, cs, hcs, hc⟩ := head_of_readNumber? hs
      refine ⟨c, cs, hcs, ?_, ?_⟩
      · rw [Bool.eq_false_iff]
        intro hblank
        simp only [isBlank, Bool.or_eq_true, beq_iff_eq] at hblank
        rcases hblank with ((rfl | rfl) | rfl) | rfl <;> simp at hc
      · rintro rfl
        simp at hc
  | text s => exact ⟨'"', _, rfl, by decide, by decide⟩
  | array vs => exact ⟨'[', _, rfl, by decide, by decide⟩
  | object ms => exact ⟨'\x7b', _, rfl, by decide, by decide⟩

/-- A numeral in front is read as a number. -/
theorem readValue_number {fuel : Nat} {c : Char} {r : List Char} {x : Spelling}
    {rest : List Char} (hc : c = '-' ∨ c.isDigit = true)
    (h : readNumber? (c :: r) = some (x, rest)) :
    readValue (fuel + 1) (c :: r) = (.number x, some rest) := by
  have hsolid : ∀ d, d = '-' ∨ d.isDigit = true →
      isBlank d = false ∧ d ≠ 'n' ∧ d ≠ 't' ∧ d ≠ 'f' ∧
      d ≠ '"' ∧ d ≠ '[' ∧ d ≠ '\x7b' := by
    intro d hd
    refine ⟨?_, ?_, ?_, ?_, ?_, ?_, ?_⟩
    · rw [Bool.eq_false_iff]
      intro hblank
      simp only [isBlank, Bool.or_eq_true, beq_iff_eq] at hblank
      rcases hblank with ((rfl | rfl) | rfl) | rfl <;> simp at hd
    all_goals
      rintro rfl
      simp at hd
  obtain ⟨hblank, hn, ht, hf, hquote, hbracket, hbrace⟩ := hsolid c hc
  simp [readValue, hblank, hn, ht, hf, hquote, hbracket, hbrace, h]

/-- A text literal in front is read as a text. -/
private theorem readValue_literal (fuel : Nat) (s : String) (rest : List Char) :
    readValue (fuel + 1) (literal s ++ rest) = (.text (some s), some rest) := by
  have hblank : isBlank '"' = false := by decide
  have htext := readText_escaped s rest
  simp only [literal, List.cons_append, List.append_assoc, List.nil_append]
  rw [readValue, List.dropWhile_cons_of_neg (by simp [hblank])]
  simp [htext]

/-- Items in front are read as an array. -/
theorem readValue_items {fuel : Nat} {c : Char} {r : List Char} {ts : List Tree}
    {rest : List Char} (hblank : isBlank c = false) (hc : c ≠ ']')
    (h : readItems fuel (c :: r) = (ts, some rest)) :
    readValue (fuel + 1) ('[' :: c :: r) = (.array ts, some rest) := by
  have hopen : isBlank '[' = false := by decide
  rw [readValue, List.dropWhile_cons_of_neg (by simp [hopen])]
  simp only [Char.reduceEq, if_false, if_true]
  rw [List.dropWhile_cons_of_neg (by simp [hblank])]
  split
  · rename_i r' heq
    exact absurd (List.cons.inj heq).1 hc
  · rw [h]

/-- Members in front are read as an object. -/
private theorem readValue_members {fuel : Nat} {r : List Char}
    {ts : List (Option String × Tree)} {rest : List Char}
    (h : readMembers fuel ('"' :: r) = (ts, some rest)) :
    readValue (fuel + 1) ('\x7b' :: '"' :: r) = (.object ts, some rest) := by
  have hopen : isBlank '\x7b' = false := by decide
  have hquote : isBlank '"' = false := by decide
  rw [readValue, List.dropWhile_cons_of_neg (by simp [hopen])]
  simp only [Char.reduceEq, if_false, if_true]
  rw [List.dropWhile_cons_of_neg (by simp [hquote])]
  simp [h]

/-- A member in front is read with what comes after it. -/
theorem readMembers_member (fuel : Nat) (k : String) (r : List Char) :
    readMembers (fuel + 1) (literal k ++ ':' :: r) =
      match readValue fuel r with
      | (t, none) => ([(some k, t)], none)
      | (t, some rest) =>
        match rest.dropWhile isBlank with
        | ',' :: rest' =>
          ((some k, t) :: (readMembers fuel rest').1, (readMembers fuel rest').2)
        | '\x7d' :: rest' => ([(some k, t)], some rest')
        | _ => ([(some k, t), (none, .broken)], none) := by
  have hquote : isBlank '"' = false := by decide
  have hcolon : isBlank ':' = false := by decide
  have htext := readText_escaped k (':' :: r)
  simp only [literal, List.cons_append, List.append_assoc, List.nil_append]
  rw [readMembers, List.dropWhile_cons_of_neg (by simp [hquote])]
  simp only [htext]
  rw [List.dropWhile_cons_of_neg (by simp [hcolon])]
  rfl

/-- A comma or a closing sign ends a numeral. -/
private theorem endsNumeral_sign {c : Char} {r : List Char}
    (h : c = ',' ∨ c = ']' ∨ c = '\x7d') : EndsNumeral (c :: r) := by
  refine endsNumeral_cons ?_
  rcases h with rfl | rfl | rfl <;> decide

mutual

/-- A written value is read as the tree of the value, whatever comes after it. -/
theorem readValue_written : ∀ (v : Value) {fuel : Nat} {rest : List Char}, v.ReadsBack →
    v.written.length < fuel → EndsNumeral rest →
    readValue fuel (v.written ++ rest) = (Tree.ofValue v, some rest)
  | v, 0, _, _, hfuel, _ => absurd hfuel (Nat.not_lt_zero _)
  | .null, _ + 1, _, _, _, _ => rfl
  | .bool true, _ + 1, _, _, _, _ => rfl
  | .bool false, _ + 1, _, _, _, _ => rfl
  | .number n, fuel + 1, rest, h, _, hrest => by
      have hread := readNumber?_written (Value.readsBack_number.1 h) hrest
      obtain ⟨s, hs, -⟩ := Value.readsBack_number.1 h
      obtain ⟨c, cs, hcs, hc⟩ := head_of_readNumber? hs
      rw [hcs] at hread
      rw [Value.written, hcs]
      exact readValue_number hc hread
  | .text s, fuel + 1, rest, _, _, _ => readValue_literal fuel s rest
  | .array [], _ + 1, _, _, _, _ => rfl
  | .array (v :: vs), fuel + 1, rest, h, hfuel, _ => by
      have hall := Value.readsBack_array.1 h
      obtain ⟨c, cs, hcs, hblank, hc⟩ := head_written (hall v List.mem_cons_self)
      have hitems : readItems fuel (Value.writtenItems (v :: vs) ++ ']' :: rest) =
          (Tree.ofItems (v :: vs), some rest) :=
        readItems_written v vs hall (by simpa [Value.written] using hfuel)
      have hhead : ∃ r, Value.writtenItems (v :: vs) ++ ']' :: rest = c :: r := by
        cases vs <;> simp [Value.writtenItems, hcs]
      obtain ⟨r, hr⟩ := hhead
      rw [hr] at hitems
      rw [Value.written, List.append_assoc, List.cons_append, List.singleton_append, hr]
      exact readValue_items hblank hc hitems
  | .object [], _ + 1, _, _, _, _ => rfl
  | .object (m :: ms), fuel + 1, rest, h, hfuel, _ => by
      have hmembers : readMembers fuel
          (Value.writtenMembers (m :: ms) ++ '\x7d' :: rest) =
          (Tree.ofMembers (m :: ms), some rest) :=
        readMembers_written m ms (Value.readsBack_object.1 h)
          (by simpa [Value.written] using hfuel)
      have hhead :
          ∃ r, Value.writtenMembers (m :: ms) ++ '\x7d' :: rest = '"' :: r := by
        cases ms <;> simp [Value.writtenMembers, literal]
      obtain ⟨r, hr⟩ := hhead
      rw [hr] at hmembers
      rw [Value.written, List.append_assoc, List.cons_append, List.singleton_append, hr]
      exact readValue_members hmembers

/-- Written items are read up to the closing bracket. -/
theorem readItems_written :
    ∀ (v : Value) (vs : List Value) {fuel : Nat} {rest : List Char},
    (∀ w ∈ v :: vs, w.ReadsBack) → (Value.writtenItems (v :: vs)).length + 1 < fuel →
    readItems fuel (Value.writtenItems (v :: vs) ++ ']' :: rest) =
      (Tree.ofItems (v :: vs), some rest)
  | v, vs, 0, _, _, hfuel => absurd hfuel (Nat.not_lt_zero _)
  | v, [], fuel + 1, rest, h, hfuel => by
      simp only [Value.writtenItems] at hfuel ⊢
      have hclose : isBlank ']' = false := by decide
      rw [readItems, readValue_written v (h v List.mem_cons_self) (by omega)
        (endsNumeral_sign (Or.inr (Or.inl rfl)))]
      simp [hclose, Tree.ofItems]
  | v, w :: vs, fuel + 1, rest, h, hfuel => by
      simp only [Value.writtenItems, List.length_append, List.length_cons] at hfuel
      have hcomma : isBlank ',' = false := by decide
      have hrest : readItems fuel (Value.writtenItems (w :: vs) ++ ']' :: rest) =
          (Tree.ofItems (w :: vs), some rest) :=
        readItems_written w vs (fun u hu => h u (List.mem_cons_of_mem v hu)) (by omega)
      rw [Value.writtenItems, List.append_assoc, List.cons_append, readItems,
        readValue_written v (h v List.mem_cons_self) (by omega)
          (endsNumeral_sign (Or.inl rfl))]
      · simp [hcomma, hrest, Tree.ofItems]
      · simp

/-- Written members are read up to the closing brace. -/
theorem readMembers_written :
    ∀ (m : String × Value) (ms : List (String × Value)) {fuel : Nat}
    {rest : List Char}, (∀ x ∈ m :: ms, x.2.ReadsBack) →
    (Value.writtenMembers (m :: ms)).length + 1 < fuel →
    readMembers fuel (Value.writtenMembers (m :: ms) ++ '\x7d' :: rest) =
      (Tree.ofMembers (m :: ms), some rest)
  | _, _, 0, _, _, hfuel => absurd hfuel (Nat.not_lt_zero _)
  | (k, v), [], fuel + 1, rest, h, hfuel => by
      simp only [Value.writtenMembers, List.length_append, List.length_cons] at hfuel
      have hclose : isBlank '\x7d' = false := by decide
      rw [Value.writtenMembers, List.append_assoc, List.cons_append, readMembers_member,
        readValue_written v (h (k, v) List.mem_cons_self) (by omega)
          (endsNumeral_sign (Or.inr (Or.inr rfl)))]
      simp [hclose, Tree.ofMembers]
  | (k, v), m :: ms, fuel + 1, rest, h, hfuel => by
      simp only [Value.writtenMembers, List.length_append, List.length_cons] at hfuel
      have hcomma : isBlank ',' = false := by decide
      have hrest : readMembers fuel (Value.writtenMembers (m :: ms) ++ '\x7d' :: rest) =
          (Tree.ofMembers (m :: ms), some rest) :=
        readMembers_written m ms
          (fun x hx => h x (List.mem_cons_of_mem (k, v) hx)) (by omega)
      rw [Value.writtenMembers, List.append_assoc, List.append_assoc, List.cons_append,
        List.cons_append, readMembers_member,
        readValue_written v (h (k, v) List.mem_cons_self) (by omega)
          (endsNumeral_sign (Or.inl rfl))]
      · simp [hcomma, hrest, Tree.ofMembers]
      · simp

end

/-- A text that holds a written value is read as the tree of the value. -/
theorem Document.read_written {v : Value} (h : v.ReadsBack) :
    Document.read v.written = ⟨Tree.ofValue v, true⟩ := by
  have hread :=
    readValue_written v h (Nat.lt_succ_self v.written.length) endsNumeral_nil
  rw [List.append_nil] at hread
  rw [Document.read, hread]
  rfl

end SeriesQuery.Json
