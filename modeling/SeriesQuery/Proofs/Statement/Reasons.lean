import SeriesQuery.Proofs.Statement.Built
import SeriesQuery.Proofs.Statement.Parsing

/-!
# What rules say

A rule that stops gives a reason.  Of all faults that a literal can have only two are
ever told while a statement is read: an escape that there is not, and a text that is no
date-time.  A body that ends with a lone backslash is never looked into, since a
backslash takes the quote after it along.

## Main results

* `Built.sound`: the reasons of every rule.
* `parse_reason`: the reason behind the problem of a text.
-/

namespace SeriesQuery.Reading

open SeriesQuery.Rendering
open Rule

variable {α β : Type}

/-- What was said, if anything, is a reason that a reading may have. -/
def Step.Sound : Step α → Prop
  | .took _ _ => True
  | .declined f => f.reason.Sound
  | .failed f => f.reason.Sound

/-- Whatever the rule is given, it stops only for reasons that a reading may have. -/
def Rule.Sound (p : Rule α) : Prop := ∀ s, (p s).Sound

/-! ## Faults -/

@[simp] theorem Fault.sound_unexpected (s : List Char) :
    (Fault.unexpected s).reason.Sound := by
  cases s <;> exact trivial

private theorem Fault.sound_further {a b : Fault} (ha : a.reason.Sound)
    (hb : b.reason.Sound) : (a.further b).reason.Sound := by
  unfold Fault.further
  split
  · exact hb
  · split
    · exact ha
    · split
      · exact hb
      · exact ha

private theorem Fault.sound_expecting {what : Expectation} {s : List Char} {f : Fault}
    (h : f.reason.Sound) : (f.expecting what s).reason.Sound := by
  unfold Fault.expecting
  split
  · exact h
  · exact trivial

/-! ## Characters -/

section Characters

private theorem sound_char (c : Char) : (char c).Sound := by
  intro s
  cases s with
  | nil => exact trivial
  | cons d s =>
    rw [char]
    split
    · exact trivial
    · exact trivial

private theorem sound_satisfy (p : Char → Bool) : (satisfy p).Sound := by
  intro s
  cases s with
  | nil => exact trivial
  | cons d s =>
    rw [satisfy]
    split
    · exact trivial
    · exact trivial

private theorem sound_run1 (p : Char → Bool) : (run1 p).Sound := by
  intro s
  unfold run1
  split
  · exact Fault.sound_unexpected s
  · exact trivial

private theorem sound_spelled (word : List Char) : (spelled word).Sound := by
  intro s
  unfold spelled
  split
  · exact trivial
  · exact Fault.sound_unexpected s

/-- The body of a quoted text was closed before it is read, so an escape in it has its
letter. -/
theorem sound_quotedText : quotedText.Sound := by
  intro s
  cases s with
  | nil => exact trivial
  | cons q r =>
    rw [quotedText]
    split
    case isTrue hq =>
      cases split : splitQuoted q r with
      | none => exact trivial
      | some p =>
        obtain ⟨scanned, -⟩ :=
          (splitQuoted_eq_some (quote_ne_slash (by simpa using hq))).1 split
        simp only
        cases legible : unescape p.1 with
        | ok text => exact trivial
        | error fault =>
          obtain ⟨-, -, c, -, -, -, -, -, rfl⟩ := (unescape_eq_error scanned).1 legible
          exact .inl ⟨c, rfl⟩
    case isFalse => exact trivial

end Characters

/-! ## Combined rules -/

namespace Rule.Sound

variable {p q : Rule α} {s : List Char} {e : Fault}

private theorem declined (hp : p.Sound) (h : p s = .declined e) : e.reason.Sound := by
  have hsaid := hp s
  rwa [h] at hsaid

private theorem failed (hp : p.Sound) (h : p s = .failed e) : e.reason.Sound := by
  have hsaid := hp s
  rwa [h] at hsaid

protected theorem bind {f : α → Rule β} (hp : p.Sound) (hf : ∀ a, (f a).Sound) :
    (p >>= f).Sound := by
  intro s
  rw [bind_eq]
  split
  case h_1 a r h => exact hf a r
  case h_2 e h => exact hp.declined h
  case h_3 e h => exact hp.failed h

protected theorem orElse (hp : p.Sound) (hq : q.Sound) : (Rule.orElse p q).Sound := by
  intro s
  unfold Rule.orElse
  split
  case h_1 e h =>
    split
    case h_1 e' h' => exact Fault.sound_further (hp.declined h) (hq.declined h')
    case h_2 => exact hq s
  case h_2 => exact hp s

protected theorem optional (hp : p.Sound) : (Rule.optional p).Sound := by
  intro s
  unfold Rule.optional
  split
  case h_1 => exact trivial
  case h_2 => exact trivial
  case h_3 e h => exact hp.failed h

protected theorem commit (hp : p.Sound) : (commit p).Sound := by
  intro s
  unfold Rule.commit
  split
  case h_1 e h => exact hp.declined h
  case h_2 => exact hp s

protected theorem expecting {what : Expectation} (hp : p.Sound) :
    (expecting what p).Sound := by
  intro s
  unfold Rule.expecting
  split
  case h_1 => exact trivial
  case h_2 e h => exact Fault.sound_expecting (hp.declined h)
  case h_3 e h => exact Fault.sound_expecting (hp.failed h)

protected theorem absent (hp : p.Sound) : (absent p).Sound := by
  intro s
  unfold Rule.absent
  split
  case h_1 => exact Fault.sound_unexpected s
  case h_2 => exact trivial
  case h_3 e h => exact hp.failed h

protected theorem convert {f : α → Except Reason β} (hp : p.Sound)
    (hf : ∀ a reason, f a = .error reason → reason.Sound) : (convert p f).Sound := by
  intro s
  unfold Rule.convert
  split
  case h_1 a r h =>
    split
    case h_1 => exact trivial
    case h_2 reason h' => exact hf a reason h'
  case h_2 e h => exact hp.declined h
  case h_3 e h => exact hp.failed h

protected theorem convert? {f : α → Option β} (hp : p.Sound) :
    (convert? p f).Sound := by
  intro s
  unfold Rule.convert?
  split
  case h_1 a r h =>
    split
    case h_1 => exact trivial
    case h_2 => exact Fault.sound_unexpected s
  case h_2 e h => exact hp.declined h
  case h_3 e h => exact hp.failed h

protected theorem taken (hp : p.Sound) : (taken p).Sound := by
  intro s
  unfold Rule.taken
  split
  case h_1 => exact trivial
  case h_2 e h => exact hp.declined h
  case h_3 e h => exact hp.failed h

end Rule.Sound

/-- **Reasons.**  A rule that is put together stops only for reasons that a reading may
have. -/
theorem Rule.Built.sound {p : Rule α} (h : p.Built) : p.Sound := by
  induction h with
  | char c => exact sound_char c
  | satisfy p => exact sound_satisfy p
  | run p => exact fun _ => trivial
  | run1 p => exact sound_run1 p
  | spelled word => exact sound_spelled word
  | quotedText => exact sound_quotedText
  | pure a => exact fun _ => trivial
  | fail hreason => exact fun _ => hreason
  | bind _ _ ihp ihf => exact ihp.bind ihf
  | orElse _ _ ihp ihq => exact ihp.orElse ihq
  | optional _ ih => exact ih.optional
  | commit _ ih => exact ih.commit
  | expecting _ ih => exact ih.expecting
  | absent _ ih => exact ih.absent
  | convert _ hf ih => exact ih.convert hf
  | convert? _ ih => exact ih.convert?
  | taken _ ih => exact ih.taken
  | pointwise q _ heq ih => exact fun s => heq s ▸ ih s s

/-! ## Messages -/

/-- The problem of a text gives a reason that a reading may have. -/
theorem parse_reason {text : String} {p : SyntaxProblem}
    (h : Statement.parse text = .error p) :
    ∃ reason : Reason, reason.Sound ∧ p.message = reason.message := by
  obtain ⟨f, hf, rfl⟩ := exists_fault_of_parse h
  have hsound := (built_stages text.toList).sound
  rcases hf with hf | hf
  · exact ⟨f.reason, hsound.declined hf, rfl⟩
  · exact ⟨f.reason, hsound.failed hf, rfl⟩

/-- A text begins like the first of the parts that it is made of. -/
theorem head_append {s t : String} {c : Char} (h : s.toList.head? = some c) :
    (s ++ t).toList.head? = some c := by
  rw [String.toList_append, List.head?_append, h]
  rfl

private theorem head_of_chars {s : String} {c : Char} {cs : List Char}
    (h : s = String.ofList (c :: cs)) : s.toList.head? = some c := by
  rw [h, String.toList_ofList]
  rfl

/-- What is said of a lone backslash is said of nothing else: its first letter is
another one. -/
theorem Reason.Sound.message_ne {reason : Reason} (h : reason.Sound) :
    reason.message ≠ LiteralFault.danglingEscape.message := by
  have hfirst : ∃ c, c ≠ 's' ∧ reason.message.toList.head? = some c := by
    cases reason with
    | unexpected c =>
        exact ⟨'u', by decide, head_append (head_append (head_of_chars rfl))⟩
    | unexpectedEnd => exact ⟨'u', by decide, head_of_chars rfl⟩
    | missing c => exact ⟨'e', by decide, head_append (head_append (head_of_chars rfl))⟩
    | expected what => exact ⟨'e', by decide, by cases what <;> exact head_of_chars rfl⟩
    | duplicate clause =>
        exact ⟨'d', by decide, head_append (head_append (head_of_chars rfl))⟩
    | amountTooLarge => exact ⟨'n', by decide, head_of_chars rfl⟩
    | unterminated => exact ⟨'u', by decide, head_of_chars rfl⟩
    | literal fault =>
      rcases h with ⟨c, rfl⟩ | ⟨text, rfl⟩
      · exact ⟨'i', by decide, head_append (head_append (head_of_chars rfl))⟩
      · exact ⟨'i', by decide, head_append (head_append (head_of_chars rfl))⟩
  obtain ⟨c, hc, hhead⟩ := hfirst
  intro heq
  have hdangling : LiteralFault.danglingEscape.message.toList.head? = some 's' :=
    head_of_chars rfl
  rw [heq, hdangling, Option.some.injEq] at hhead
  exact hc hhead.symm

end SeriesQuery.Reading
