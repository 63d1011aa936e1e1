import SeriesQuery.Proofs.Statement.Built

/-!
# Where rules stop

Whatever a rule makes of a text, the text that is left, or at which it stopped, is an
end of the text that was in front of it.  This is so for characters and quoted texts,
the ways of combining rules keep it, and so it is so for every rule of the grammar.

## Main results

* `Inward.bind`, `Inward.orElse`, `Inward.convert`: the combinations of rules.
* `Built.inward`: every rule that is put together stops inside the text.
-/

namespace SeriesQuery.Reading

open SeriesQuery.Text (isBlank)
open Rule

variable {α β : Type}

/-- What is left of a text, or where a rule stopped in it. -/
def Step.rest : Step α → List Char
  | .took _ r => r
  | .declined f => f.rest
  | .failed f => f.rest

/-- Whatever the rule makes of a text, it leaves an end of the text or stops at one. -/
def Rule.Inward (p : Rule α) : Prop := ∀ s, (p s).rest <:+ s

/-! ## Faults -/

@[simp] theorem Fault.rest_unexpected (s : List Char) :
    (Fault.unexpected s).rest = s := by
  cases s <;> rfl

private theorem Fault.rest_further (a b : Fault) :
    (a.further b).rest = a.rest ∨ (a.further b).rest = b.rest := by
  unfold Fault.further
  split
  · exact .inr rfl
  · split
    · exact .inl rfl
    · split
      · exact .inr rfl
      · exact .inl rfl

private theorem Fault.rest_expecting (what : Expectation) (s : List Char) (f : Fault) :
    (f.expecting what s).rest = f.rest ∨ (f.expecting what s).rest = s := by
  unfold Fault.expecting
  split
  · exact .inl rfl
  · exact .inr rfl

/-! ## Characters -/

section Characters

private theorem inward_char (c : Char) : (char c).Inward := by
  intro s
  cases s with
  | nil => exact List.suffix_rfl
  | cons d s =>
    rw [char]
    split
    · exact List.suffix_cons d s
    · exact List.suffix_rfl

private theorem inward_satisfy (p : Char → Bool) : (satisfy p).Inward := by
  intro s
  cases s with
  | nil => exact List.suffix_rfl
  | cons d s =>
    rw [satisfy]
    split
    · exact List.suffix_cons d s
    · exact List.suffix_rfl

private theorem inward_run (p : Char → Bool) : (run p).Inward :=
  fun _ => List.dropWhile_suffix p

private theorem inward_run1 (p : Char → Bool) : (run1 p).Inward := by
  intro s
  unfold run1
  split
  · simp [Step.rest]
  · exact List.dropWhile_suffix p

private theorem inward_spelled (word : List Char) : (spelled word).Inward := by
  intro s
  unfold spelled
  split
  · exact List.drop_suffix _ _
  · simp [Step.rest]

private theorem inward_quotedText : quotedText.Inward := by
  intro s
  cases s with
  | nil => exact List.suffix_rfl
  | cons q r =>
    rw [quotedText]
    split
    case isTrue hq =>
      cases split : splitQuoted q r with
      | none => exact List.suffix_rfl
      | some p =>
        obtain ⟨-, hr⟩ :=
          (splitQuoted_eq_some (quote_ne_slash (by simpa using hq))).1 split
        simp only
        cases unescape p.1 with
        | ok text => exact ⟨q :: (p.1 ++ [q]), by simp [Step.rest, hr]⟩
        | error fault => exact List.suffix_rfl
    case isFalse => exact List.suffix_rfl

end Characters

/-! ## Combined rules -/

namespace Rule.Inward

variable {p q : Rule α} {s r : List Char} {a : α} {e : Fault}

theorem took (hp : p.Inward) (h : p s = .took a r) : r <:+ s := by
  have hrest := hp s
  rwa [h] at hrest

theorem declined (hp : p.Inward) (h : p s = .declined e) : e.rest <:+ s := by
  have hrest := hp s
  rwa [h] at hrest

theorem failed (hp : p.Inward) (h : p s = .failed e) : e.rest <:+ s := by
  have hrest := hp s
  rwa [h] at hrest

protected theorem pure (a : α) : (pure a : Rule α).Inward := fun _ => List.suffix_rfl

protected theorem bind {f : α → Rule β} (hp : p.Inward) (hf : ∀ a, (f a).Inward) :
    (p >>= f).Inward := by
  intro s
  show (Rule.bind p f s).rest <:+ s
  unfold Rule.bind
  split
  case h_1 a r h => exact (hf a r).trans (hp.took h)
  case h_2 e h => exact hp.declined h
  case h_3 e h => exact hp.failed h

protected theorem orElse (hp : p.Inward) (hq : q.Inward) :
    (Rule.orElse p q).Inward := by
  intro s
  unfold Rule.orElse
  split
  case h_1 e h =>
    split
    case h_1 e' h' =>
      show (e.further e').rest <:+ s
      rcases Fault.rest_further e e' with heq | heq
      · rw [heq]
        exact hp.declined h
      · rw [heq]
        exact hq.declined h'
    case h_2 => exact hq s
  case h_2 => exact hp s

protected theorem optional (hp : p.Inward) : (Rule.optional p).Inward := by
  intro s
  unfold Rule.optional
  split
  case h_1 a r h => exact hp.took h
  case h_2 => exact List.suffix_rfl
  case h_3 e h => exact hp.failed h

protected theorem commit (hp : p.Inward) : (commit p).Inward := by
  intro s
  unfold Rule.commit
  split
  case h_1 e h => exact hp.declined h
  case h_2 => exact hp s

protected theorem expecting {what : Expectation} (hp : p.Inward) :
    (expecting what p).Inward := by
  intro s
  have hfault : ∀ {e : Fault}, e.rest <:+ s → (e.expecting what s).rest <:+ s := by
    intro e he
    rcases Fault.rest_expecting what s e with heq | heq
    · rwa [heq]
    · simp only [heq, List.suffix_rfl]
  unfold Rule.expecting
  split
  case h_1 a r h => exact hp.took h
  case h_2 e h => exact hfault (hp.declined h)
  case h_3 e h => exact hfault (hp.failed h)

protected theorem absent (hp : p.Inward) : (absent p).Inward := by
  intro s
  unfold Rule.absent
  split
  case h_1 => simp [Step.rest]
  case h_2 => exact List.suffix_rfl
  case h_3 e h => exact hp.failed h

protected theorem convert {f : α → Except Reason β} (hp : p.Inward) :
    (convert p f).Inward := by
  intro s
  unfold Rule.convert
  split
  case h_1 a r h =>
    split
    · exact hp.took h
    · exact List.suffix_rfl
  case h_2 e h => exact hp.declined h
  case h_3 e h => exact hp.failed h

protected theorem convert? {f : α → Option β} (hp : p.Inward) :
    (convert? p f).Inward := by
  intro s
  unfold Rule.convert?
  split
  case h_1 a r h =>
    split
    · exact hp.took h
    · simp [Step.rest]
  case h_2 e h => exact hp.declined h
  case h_3 e h => exact hp.failed h

protected theorem taken (hp : p.Inward) : (taken p).Inward := by
  intro s
  unfold Rule.taken
  split
  case h_1 a r h => exact hp.took h
  case h_2 e h => exact hp.declined h
  case h_3 e h => exact hp.failed h

end Rule.Inward

/-- **Every rule stops inward.**  A rule that is put together leaves an end of the text
in front of it, or stops at one. -/
theorem Rule.Built.inward {p : Rule α} (h : p.Built) : p.Inward := by
  induction h with
  | char c => exact inward_char c
  | satisfy p => exact inward_satisfy p
  | run p => exact inward_run p
  | run1 p => exact inward_run1 p
  | spelled word => exact inward_spelled word
  | quotedText => exact inward_quotedText
  | pure a => exact .pure a
  | fail => exact fun _ => List.suffix_rfl
  | bind _ _ ihp ihf => exact ihp.bind ihf
  | orElse _ _ ihp ihq => exact ihp.orElse ihq
  | optional _ ih => exact ih.optional
  | commit _ ih => exact ih.commit
  | expecting _ ih => exact ih.expecting
  | absent _ ih => exact ih.absent
  | convert _ _ ih => exact ih.convert
  | convert? _ ih => exact ih.convert?
  | taken _ ih => exact ih.taken
  | pointwise q _ heq ih => exact fun s => heq s ▸ ih s s

end SeriesQuery.Reading
