import RouteTemplates.Text.Basic

/-!
# Cuts at the first occurrence

`cutAt?` finds a mark by trying one place after the other.  What it finds is
described without the search: the text is put together from the value, the mark
and the rest, and no part of the value can be given up so that the mark is met
earlier.  The second half looks at the value and the mark only, since a mark that
begins inside the value cannot reach beyond the first one.
-/

namespace RouteTemplates
namespace Text

/-- Reading `value` and then `mark`, the first occurrence of the mark begins
where the value ends. -/
def FirstAfter (mark value : Text) : Prop :=
  ∀ before after, value ++ mark = before ++ mark ++ after → byteSize value ≤ byteSize before

theorem isPrefixOf?_eq_some_iff {mark t after : Text} :
    mark.isPrefixOf? t = some after ↔ t = mark ++ after := by
  constructor
  · exact append_of_isPrefixOf?
  · rintro rfl
    induction mark with
    | nil => rfl
    | cons c mark ih =>
      change (if c == c then mark.isPrefixOf? (mark ++ after) else none) = some after
      rw [if_pos (beq_self_eq_true c), ih]

theorem firstAfter_nil (mark : Text) : FirstAfter mark [] := by
  intro before after _
  exact Nat.zero_le _

/-- A value loses its first character without the mark coming any earlier. -/
theorem FirstAfter.tail {mark value : Text} {c : Char} (h : FirstAfter mark (c :: value)) :
    FirstAfter mark value := by
  intro before after heq
  have hle : byteSize (c :: value) ≤ byteSize (c :: before) := by
    apply h (c :: before) after
    simp [heq]
  simpa [byteSize] using hle

/-- A mark at the front of the whole text lies within the value and the mark. -/
theorem FirstAfter.not_isPrefix {mark value after : Text} {c : Char}
    (h : FirstAfter mark (c :: value)) : ¬ mark <+: c :: value ++ mark ++ after := by
  intro hp
  have hshort : mark <+: c :: value ++ mark :=
    List.prefix_of_prefix_length_le hp (List.prefix_append _ after) (by simp; omega)
  obtain ⟨rest, hrest⟩ := hshort
  have hle := h [] rest (by simpa using hrest.symm)
  have hpos := c.utf8Size_pos
  simp [byteSize] at hle
  omega

/-- Where the first occurrence begins is told by the value and the mark, whatever comes
behind them. -/
theorem FirstAfter.le_byteSize {mark value behind before after : Text} (h : FirstAfter mark value)
    (heq : value ++ mark ++ behind = before ++ mark ++ after) :
    byteSize value ≤ byteSize before := by
  have hfront : before <+: value ++ mark ++ behind := ⟨mark ++ after, by simp [heq]⟩
  rcases Nat.le_total value.length before.length with hlong | hshort
  · obtain ⟨rest, rfl⟩ := List.prefix_of_prefix_length_le
      ((List.prefix_append value mark).trans (List.prefix_append _ behind)) hfront hlong
    rw [byteSize_append]
    exact Nat.le_add_right _ _
  · have hearly : before ++ mark <+: value ++ mark ++ behind := ⟨after, by simp [heq]⟩
    obtain ⟨rest, hrest⟩ := List.prefix_of_prefix_length_le hearly (List.prefix_append _ behind)
      (by simpa)
    exact h before rest hrest.symm

/-- Where a piece of the mark is met for the first time, the whole mark is not met any
earlier, since it would bring the piece along. -/
theorem FirstAfter.of_isPrefix {piece mark value : Text} (h : FirstAfter piece value)
    (hp : piece <+: mark) : FirstAfter mark value := by
  obtain ⟨more, rfl⟩ := hp
  intro before after heq
  have hpiece : value ++ piece ++ more = before ++ piece ++ (more ++ after) := by simpa using heq
  exact h.le_byteSize hpiece

/-- A mark that is first met behind the value is not met within it. -/
theorem FirstAfter.not_isInfix {mark value : Text} (h : FirstAfter mark value) (hm : mark ≠ []) :
    ¬ mark <:+: value := by
  rintro ⟨before, after, rfl⟩
  have hle := h before (after ++ mark) (by simp)
  have hpos : 0 < byteSize mark := Nat.pos_of_ne_zero fun hzero => hm (byteSize_eq_zero.mp hzero)
  rw [byteSize_append, byteSize_append] at hle
  omega

theorem isPrefixOf?_eq_none_iff {mark t : Text} :
    mark.isPrefixOf? t = none ↔ ¬ mark <+: t := by
  rw [Option.eq_none_iff_forall_not_mem]
  constructor
  · rintro h ⟨rest, rfl⟩
    exact h rest (isPrefixOf?_eq_some_iff.mpr rfl)
  · intro h rest hrest
    exact h ⟨rest, (isPrefixOf?_eq_some_iff.mp hrest).symm⟩

theorem firstAfter_of_cutAt? {mark t value after : Text}
    (h : cutAt? mark t = some (value, after)) : FirstAfter mark value := by
  induction t generalizing value with
  | nil =>
    simp only [cutAt?] at h
    split at h
    · obtain ⟨rfl, rfl⟩ := Prod.mk.inj (Option.some.inj h)
      exact firstAfter_nil mark
    · cases h
  | cons c t ih =>
    simp only [cutAt?] at h
    split at h
    · obtain ⟨rfl, rfl⟩ := Prod.mk.inj (Option.some.inj h)
      exact firstAfter_nil mark
    · rename_i hnone
      obtain ⟨⟨value', after'⟩, hcut, heq⟩ := Option.map_eq_some_iff.mp h
      obtain ⟨rfl, rfl⟩ : c :: value' = value ∧ after' = after := by simpa using heq
      have htext := append_of_cutAt? hcut
      intro before rest hsplit
      cases before with
      | nil =>
        -- An occurrence at the front would have been found in the first step.
        have hp : mark <+: c :: t := by
          have hjoined : c :: t = mark ++ (rest ++ after') := by
            rw [htext, ← List.cons_append, ← List.cons_append, hsplit]
            simp
          exact ⟨_, hjoined.symm⟩
        exact absurd hp (isPrefixOf?_eq_none_iff.mp hnone)
      | cons d before =>
        obtain ⟨rfl, hmore⟩ : c = d ∧ value' ++ mark = before ++ mark ++ rest := by
          simpa using hsplit
        have hle := ih hcut before rest hmore
        simp only [byteSize]
        omega

theorem cutAt?_of_firstAfter {mark value : Text} (after : Text) (h : FirstAfter mark value) :
    cutAt? mark (value ++ mark ++ after) = some (value, after) := by
  induction value with
  | nil =>
    have hfront : mark.isPrefixOf? (mark ++ after) = some after :=
      isPrefixOf?_eq_some_iff.mpr rfl
    cases hall : mark ++ after with
    | nil =>
      obtain ⟨rfl, rfl⟩ := List.append_eq_nil_iff.mp hall
      rfl
    | cons c t =>
      rw [hall] at hfront
      simp [cutAt?, hall, hfront]
  | cons c value ih =>
    have hnone : mark.isPrefixOf? (c :: (value ++ mark ++ after)) = none :=
      isPrefixOf?_eq_none_iff.mpr (by simpa using h.not_isPrefix)
    have hrest := ih h.tail
    simp only [List.append_assoc] at hnone hrest
    simp [cutAt?, hnone, hrest]

theorem cutAt?_eq_some_iff {mark t value after : Text} :
    cutAt? mark t = some (value, after) ↔
      t = value ++ mark ++ after ∧ FirstAfter mark value := by
  constructor
  · intro h
    exact ⟨append_of_cutAt? h, firstAfter_of_cutAt? h⟩
  · rintro ⟨rfl, h⟩
    exact cutAt?_of_firstAfter after h

theorem cutAt?_isSome_iff {mark t : Text} : (cutAt? mark t).isSome ↔ mark <:+: t := by
  induction t with
  | nil =>
    rw [cutAt?, List.infix_nil]
    split <;> simp_all
  | cons c t ih =>
    rw [cutAt?, List.infix_cons_iff, ← ih]
    cases hfront : mark.isPrefixOf? (c :: t) with
    | some after =>
      have hp : mark <+: c :: t := ⟨after, (isPrefixOf?_eq_some_iff.mp hfront).symm⟩
      simp [hp]
    | none =>
      have hp := isPrefixOf?_eq_none_iff.mp hfront
      simp [hp]

theorem takeBytes?_append (value rest : Text) :
    takeBytes? (byteSize value) (value ++ rest) = some (value, rest) := by
  induction value with
  | nil => cases rest <;> rfl
  | cons c value ih =>
    have hpos := c.utf8Size_pos
    obtain ⟨n, hn⟩ : ∃ n, c.utf8Size + byteSize value = n + 1 :=
      ⟨c.utf8Size + byteSize value - 1, by omega⟩
    have hle : c.utf8Size ≤ n + 1 := by omega
    have hrest : n + 1 - c.utf8Size = byteSize value := by omega
    simp only [byteSize, hn, List.cons_append, takeBytes?, if_pos hle, hrest, ih, Option.map_some]

/-- What is taken by its size is a piece of the text: a size that ends inside a character
is the size of no piece. -/
theorem takeBytes?_eq_some_iff {n : Nat} {t taken rest : Text} :
    takeBytes? n t = some (taken, rest) ↔ t = taken ++ rest ∧ byteSize taken = n := by
  constructor
  · intro h
    induction t generalizing n taken with
    | nil =>
      cases n with
      | zero =>
        obtain ⟨rfl, rfl⟩ := Prod.mk.inj (Option.some.inj h)
        exact ⟨rfl, rfl⟩
      | succ n => cases h
    | cons c t ih =>
      cases n with
      | zero =>
        obtain ⟨rfl, rfl⟩ := Prod.mk.inj (Option.some.inj h)
        exact ⟨rfl, rfl⟩
      | succ n =>
        rw [takeBytes?] at h
        split at h
        · rename_i hle
          obtain ⟨⟨front, back⟩, htake, heq⟩ := Option.map_eq_some_iff.mp h
          obtain ⟨rfl, rfl⟩ := Prod.mk.inj heq
          obtain ⟨rfl, hsize⟩ := ih htake
          refine ⟨rfl, ?_⟩
          rw [byteSize, hsize]
          omega
        · cases h
  · rintro ⟨rfl, rfl⟩
    exact takeBytes?_append taken rest

/-- The byte position lies between two characters of the text, or at one of its ends. -/
def HasBoundary (t : Text) (n : Nat) : Prop := ∃ front rest, t = front ++ rest ∧ byteSize front = n

end Text
end RouteTemplates
