import RouteTemplates.Proofs.Text.Quoting

/-!
# Texts on one line

A quoted text stands on one line, whatever it holds.  Each character at which a line
could be broken is escaped, the most common ones with a letter and the others because
they count as hidden, so here it does matter which characters do.  A count is on one line
because it consists of digits.
-/

namespace RouteTemplates
namespace Text

/-- The characters at which lines are broken, those that separate paragraphs and pages
among them. -/
def lineBreaks : List Char := ['\n', '\x0b', '\x0c', '\r', '\x85', '\u2028', '\u2029']

def OneLine (t : Text) : Prop := ∀ c ∈ t, c ∉ lineBreaks

instance (t : Text) : Decidable (OneLine t) := List.decidableBAll (· ∉ lineBreaks) t

theorem oneLine_append {s t : Text} : OneLine (s ++ t) ↔ OneLine s ∧ OneLine t :=
  List.forall_mem_append

theorem oneLine_cons {c : Char} {t : Text} : OneLine (c :: t) ↔ c ∉ lineBreaks ∧ OneLine t :=
  List.forall_mem_cons

theorem oneLine_of_isAlpha {t : Text} (h : ∀ c ∈ t, c.isAlpha) : OneLine t := by
  intro c hc hbreak
  have hnone : lineBreaks.all fun c => !c.isAlpha := by decide
  have hnot := List.all_eq_true.mp hnone c hbreak
  rw [h c hc] at hnot
  cases hnot

theorem digitChar_not_mem_lineBreaks (k : Nat) : k.digitChar ∉ lineBreaks := by
  simp [lineBreaks, Nat.digitChar_ne]

theorem oneLine_toDigits {b : Nat} (hb : 1 < b) (n : Nat) : OneLine (Nat.toDigits b n) := by
  intro c hc hbreak
  refine not_mem_toDigits (fun k hk => ?_) hb n hc
  rw [← hk] at hbreak
  exact digitChar_not_mem_lineBreaks k hbreak

theorem oneLine_ofNat (n : Nat) : OneLine (ofNat n) := oneLine_toDigits (by decide) n

theorem oneLine_codePointEscape (c : Char) : OneLine (codePointEscape c) := by
  rw [codePointEscape, oneLine_append, oneLine_append]
  exact ⟨⟨by decide, oneLine_toDigits (by decide) _⟩, by decide⟩

/-- No character at which a line is broken is left as it is. -/
theorem escaped_of_mem_lineBreaks {c : Char} (h : c ∈ lineBreaks) :
    (shortEscape? c).isSome ∨ isHidden c := by
  have hall : lineBreaks.all fun c => (shortEscape? c).isSome || isHidden c := by decide +kernel
  exact (Bool.or_eq_true _ _).mp (List.all_eq_true.mp hall c h)

theorem oneLine_escapeChar (c : Char) : OneLine (escapeChar '"' c) := by
  unfold escapeChar
  cases hshort : shortEscape? c with
  | some letter =>
    have hletters : shortEscapes.all fun p => decide (OneLine ['\\', p.2]) := by decide
    exact of_decide_eq_true (List.all_eq_true.mp hletters _ (mem_shortEscapes hshort))
  | none =>
    by_cases hmark : c = '"'
    · simp only [hmark]
      decide
    · by_cases hhidden : isHidden c
      · simpa [hmark, hhidden] using oneLine_codePointEscape c
      · have hkept : c ∉ lineBreaks := fun hbreak => by
          simpa [hshort, hhidden] using escaped_of_mem_lineBreaks hbreak
        simpa [hmark, hhidden, OneLine] using hkept

theorem oneLine_quoted (t : Text) : OneLine (quoted t) := by
  rw [quoted, oneLine_cons, oneLine_append]
  refine ⟨by decide, fun c hc => ?_, by decide⟩
  obtain ⟨d, _, hcd⟩ := List.mem_flatMap.mp hc
  exact oneLine_escapeChar d c hcd

/-- Texts on one line, each closed by a line break, can be told apart again. -/
theorem lines_injective {lines lines' : List Text} (hlines : ∀ l ∈ lines, OneLine l)
    (hlines' : ∀ l ∈ lines', OneLine l)
    (h : lines.flatMap (· ++ ['\n']) = lines'.flatMap (· ++ ['\n'])) : lines = lines' := by
  have hstop : ∀ l, OneLine l → ∀ c ∈ l, ¬ c = '\n' := by
    rintro l hl _ hc rfl
    exact hl _ hc (by decide)
  induction lines generalizing lines' with
  | nil =>
    cases lines' with
    | nil => rfl
    | cons l' lines' => simp at h
  | cons l lines ih =>
    cases lines' with
    | nil => simp at h
    | cons l' lines' =>
      obtain ⟨hl, hmore⟩ := List.forall_mem_cons.mp hlines
      obtain ⟨hl', hmore'⟩ := List.forall_mem_cons.mp hlines'
      rw [List.flatMap_cons, List.flatMap_cons, List.append_assoc, List.append_assoc] at h
      obtain ⟨rfl, hrest⟩ := append_inj_of_stop (hstop l hl) (hstop l' hl') (by simp) (by simp) h
      rw [ih hmore hmore' (List.cons.inj hrest).2]

theorem count_lines {lines : List Text} (h : ∀ l ∈ lines, OneLine l) :
    (lines.flatMap (· ++ ['\n'])).count '\n' = lines.length := by
  induction lines with
  | nil => rfl
  | cons l lines ih =>
    obtain ⟨hl, hmore⟩ := List.forall_mem_cons.mp h
    have hnone : l.count '\n' = 0 := List.count_eq_zero.mpr fun hmem => hl _ hmem (by decide)
    rw [List.flatMap_cons, List.count_append, List.count_append, ih hmore, hnone]
    simp [Nat.add_comm]

end Text
end RouteTemplates
