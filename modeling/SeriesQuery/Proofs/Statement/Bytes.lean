import SeriesQuery.Proofs.Statement.Inward
import SeriesQuery.Proofs.Statement.Parsing

/-!
# Places counted in bytes

Where a rest of a text begins is told by the characters in front of it, and which of two
rests begins later by the characters that they have.  A text is kept as bytes, in UTF-8
up to four for a character, and its length is the number of them.  It does not matter
which of the two is counted: a rest of a text that has more characters than another one
has more bytes, and when the bytes of a rest are cut off from the end of those of the
text, the bytes of what stands in front of the rest are left.

## Main results

* `length_bytes_lt_iff`: rests of one text compare alike in bytes and in characters.
* `positionOf_bytes`: the place of a rest, worked out in bytes.
* `Rule.Built.orElse_declined`: which of two alternatives got further, worked out in
  bytes.
-/

namespace SeriesQuery.Reading

open SeriesQuery.Rendering (positionOf_append)
open Rule

variable {source r s : List Char}

/-- The bytes of some characters in UTF-8. -/
def bytes (s : List Char) : List UInt8 := s.flatMap String.utf8EncodeChar

/-- The bytes of the characters of a text are those that it is kept as. -/
theorem bytes_toList (text : String) :
    (bytes text.toList).toByteArray = text.toByteArray := by
  rw [← String.utf8Encode_toList, bytes, List.utf8Encode]

/-- No two texts have the same bytes. -/
theorem bytes_injective : Function.Injective bytes := by
  intro s t h
  have hkept := congrArg List.toByteArray h
  rw [← String.toList_ofList (l := s), ← String.toList_ofList (l := t), bytes_toList,
    bytes_toList, String.toByteArray_inj] at hkept
  exact String.ofList_inj.1 hkept

private theorem bytes_append (s t : List Char) : bytes (s ++ t) = bytes s ++ bytes t :=
  List.flatMap_append

/-- A character has at least one byte. -/
theorem length_le_bytes (s : List Char) : s.length ≤ (bytes s).length := by
  induction s with
  | nil => exact Nat.le_refl 0
  | cons c s ih =>
    have hpos := c.utf8Size_pos
    rw [← List.singleton_append, bytes_append]
    simp only [bytes, List.length_append, List.flatMap_singleton,
      String.length_utf8EncodeChar, List.length_singleton] at ih ⊢
    omega

/-! ## Rests of a text -/

/-- An end of a text that is shorter has fewer bytes. -/
theorem length_bytes_lt_of_suffix (h : s <:+ r) (hlt : s.length < r.length) :
    (bytes s).length < (bytes r).length := by
  obtain ⟨before, rfl⟩ := h
  have hbefore := length_le_bytes before
  rw [List.length_append] at hlt
  rw [bytes_append, List.length_append]
  omega

/-- Of two rests of one text the one with fewer bytes is the one with fewer
characters. -/
theorem length_bytes_lt_iff (hr : r <:+ source) (hs : s <:+ source) :
    (bytes s).length < (bytes r).length ↔ s.length < r.length := by
  constructor
  · intro hlt
    by_contra hle
    have hend : r <:+ s := List.suffix_of_suffix_length_le hr hs (Nat.le_of_not_lt hle)
    rcases Nat.lt_or_eq_of_le (Nat.le_of_not_lt hle) with hmore | hsame
    · have := length_bytes_lt_of_suffix hend hmore
      omega
    · rw [hend.eq_of_length hsame] at hlt
      exact Nat.lt_irrefl _ hlt
  · intro hlt
    exact length_bytes_lt_of_suffix
      (List.suffix_of_suffix_length_le hs hr (Nat.le_of_lt hlt)) hlt

/-- **Places in bytes.**  In front of a rest of a text stand the characters whose bytes
are left when as many as the rest has are cut off from the end, and these alone; the
place of the rest is the place behind them. -/
theorem positionOf_bytes (h : r <:+ source) (before : List Char) :
    bytes before = (bytes source).take ((bytes source).length - (bytes r).length) ↔
      source = before ++ r ∧ positionOf source r = Position.after before := by
  obtain ⟨front, rfl⟩ := h
  have hcut : (bytes (front ++ r)).take
      ((bytes (front ++ r)).length - (bytes r).length) = bytes front := by
    rw [bytes_append, List.length_append, Nat.add_sub_cancel, List.take_left]
  rw [hcut, positionOf_append]
  constructor
  · intro hbytes
    rw [bytes_injective hbytes]
    exact ⟨rfl, rfl⟩
  · rintro ⟨hsource, -⟩
    rw [List.append_cancel_right hsource]

/-- **Alternatives in bytes.**  When both of two alternatives decline, the one speaks
that has left fewer bytes; when they have left as many, the second one does if only it
is settled. -/
theorem Rule.Built.orElse_declined {α : Type} {p q : Rule α} (hp : p.Built)
    (hq : q.Built) {a b : Fault} (ha : p s = .declined a) (hb : q s = .declined b) :
    orElse p q s = .declined
      (if (bytes b.rest).length < (bytes a.rest).length then b
        else if (bytes a.rest).length < (bytes b.rest).length then a
        else if b.reason.isSettled && !a.reason.isSettled then b
        else a) := by
  have hends : a.rest <:+ s := by simpa [ha, Step.rest] using hp.inward s
  have hends' : b.rest <:+ s := by simpa [hb, Step.rest] using hq.inward s
  simp only [orElse, ha, hb, Fault.further, length_bytes_lt_iff hends hends',
    length_bytes_lt_iff hends' hends]

end SeriesQuery.Reading
