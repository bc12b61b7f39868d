import RouteTemplates.Text.Quoted

/-!
# Reading quoted texts back

A character between quote marks stands for itself or opens an escape.  What opens an
escape, the backslash, never stands for itself, and neither does the quote mark, so a
quoted text tells by itself where it ends, and no two texts are quoted alike.  Which
characters count as hidden makes no difference.
-/

namespace RouteTemplates
namespace Text

/-- Two words that stop at the same kind of character are told apart from what follows. -/
theorem append_inj_of_stop {stop : Char → Prop} {word word' rest rest' : Text}
    (hword : ∀ c ∈ word, ¬ stop c) (hword' : ∀ c ∈ word', ¬ stop c)
    (hrest : ∀ c ∈ rest.head?, stop c) (hrest' : ∀ c ∈ rest'.head?, stop c)
    (h : word ++ rest = word' ++ rest') : word = word' ∧ rest = rest' := by
  induction word generalizing word' with
  | nil =>
    cases word' with
    | nil => exact ⟨rfl, h⟩
    | cons c word' =>
      obtain rfl : rest = c :: (word' ++ rest') := h
      exact absurd (hrest c rfl) (hword' c List.mem_cons_self)
  | cons c word ih =>
    obtain ⟨hc, hmore⟩ := List.forall_mem_cons.mp hword
    cases word' with
    | nil =>
      obtain rfl : c :: (word ++ rest) = rest' := h
      exact absurd (hrest' c rfl) hc
    | cons c' word' =>
      obtain ⟨rfl, htail⟩ := List.cons.inj h
      obtain ⟨rfl, hrest⟩ := ih hmore (List.forall_mem_cons.mp hword').2 htail
      exact ⟨rfl, hrest⟩

/-! ## Numbers in hexadecimal -/

theorem digitChar_injective {m n : Nat} (hm : m < 16) (hn : n < 16)
    (h : m.digitChar = n.digitChar) : m = n := by
  have hall : ∀ m n : Fin 16, m.val.digitChar = n.val.digitChar → m = n := by decide
  exact congrArg Fin.val (hall ⟨m, hm⟩ ⟨n, hn⟩ h)

theorem toDigits_injective {m n : Nat} (h : Nat.toDigits 16 m = Nat.toDigits 16 n) : m = n := by
  induction m using Nat.strongRecOn generalizing n with
  | ind m ih =>
    have hone : ∀ k, 16 ≤ k → 1 < (Nat.toDigits 16 k).length := by
      intro k hk
      rw [Nat.toDigits_of_base_le (by decide) hk, List.length_append]
      have := Nat.length_toDigits_pos (b := 16) (n := k / 16)
      simp
      omega
    have hlength := congrArg List.length h
    rcases Nat.lt_or_ge m 16 with hm | hm <;> rcases Nat.lt_or_ge n 16 with hn | hn
    · rw [Nat.toDigits_of_lt_base hm, Nat.toDigits_of_lt_base hn] at h
      exact digitChar_injective hm hn (List.cons.inj h).1
    · have := hone n hn
      rw [← hlength, Nat.toDigits_of_lt_base hm] at this
      simp at this
    · have := hone m hm
      rw [hlength, Nat.toDigits_of_lt_base hn] at this
      simp at this
    · rw [Nat.toDigits_of_base_le (by decide) hm, Nat.toDigits_of_base_le (by decide) hn] at h
      obtain ⟨hdiv, hmod⟩ := List.append_inj' h rfl
      have hdiv := ih (m / 16) (by omega) hdiv
      have hmod := digitChar_injective (Nat.mod_lt _ (by decide)) (Nat.mod_lt _ (by decide))
        (List.cons.inj hmod).1
      omega

theorem not_mem_toDigits {c : Char} (hc : ∀ k : Nat, k.digitChar ≠ c) {b : Nat} (hb : 1 < b)
    (n : Nat) : c ∉ Nat.toDigits b n := by
  have hdigit : ∀ k : Nat, c ∉ [k.digitChar] := fun k hmem =>
    hc k (List.mem_singleton.mp hmem).symm
  induction n using Nat.strongRecOn with
  | ind n ih =>
    rcases Nat.lt_or_ge n b with hn | hn
    · rw [Nat.toDigits_of_lt_base hn]
      exact hdigit n
    · rw [Nat.toDigits_of_base_le hb hn, List.mem_append]
      exact not_or.mpr ⟨ih (n / b) (Nat.div_lt_self (by omega) hb), hdigit _⟩

theorem codePointEscape_append_inj {c c' : Char} {rest rest' : Text}
    (h : codePointEscape c ++ rest = codePointEscape c' ++ rest') : c = c' ∧ rest = rest' := by
  have hdigits : Nat.toDigits 16 c.toNat ++ '\x7d' :: rest =
      Nat.toDigits 16 c'.toNat ++ '\x7d' :: rest' := by
    simpa [codePointEscape] using h
  have hstop : ∀ n, ∀ d ∈ Nat.toDigits 16 n, ¬ d = '\x7d' := by
    rintro n _ hd rfl
    exact not_mem_toDigits (fun _ => Nat.digitChar_ne _ (by decide)) (by decide) n hd
  obtain ⟨hcode, hrest⟩ := append_inj_of_stop (hstop _) (hstop _) (by simp) (by simp) hdigits
  exact ⟨Char.toNat_inj.mp (toDigits_injective hcode), (List.cons.inj hrest).2⟩

/-! ## Escapes -/

/-- The characters with an escape of two characters, and the second of these. -/
def shortEscapes : List (Char × Char) :=
  [('"', '"'), ('\x00', '0'), ('\t', 't'), ('\r', 'r'), ('\n', 'n'), ('\\', '\\')]

theorem mem_shortEscapes {c letter : Char} (h : shortEscape? c = some letter) :
    (c, letter) ∈ shortEscapes := by
  unfold shortEscape? at h
  grind [shortEscapes]

/-- How a character can stand between double quotes. -/
inductive Escape : Char → Text → Prop
  | short {c letter : Char} : (c, letter) ∈ shortEscapes → Escape c ['\\', letter]
  | codePoint (c : Char) : Escape c (codePointEscape c)
  | itself {c : Char} : c ≠ '"' → c ≠ '\\' → Escape c [c]

theorem escape_escapeChar (c : Char) : Escape c (escapeChar '"' c) := by
  unfold escapeChar
  cases hshort : shortEscape? c with
  | some letter => exact .short (mem_shortEscapes hshort)
  | none =>
    have hbackslash : c ≠ '\\' := by
      rintro rfl
      simp [shortEscape?] at hshort
    by_cases hmark : c = '"'
    · rw [hmark]
      exact .short (by decide)
    · by_cases hhidden : isHidden c
      · simpa [hmark, hhidden] using Escape.codePoint c
      · simpa [hmark, hhidden] using Escape.itself hmark hbackslash

theorem Escape.head_ne {c : Char} {e : Text} (h : Escape c e) (rest rest' : Text) :
    e ++ rest ≠ '"' :: rest' := by
  cases h with
  | short _ | codePoint => simp [codePointEscape]
  | itself hmark _ => simp [hmark]

/-- An escape tells what it stands for and where it ends. -/
theorem Escape.append_inj {c c' : Char} {e e' rest rest' : Text} (h : Escape c e)
    (h' : Escape c' e') (heq : e ++ rest = e' ++ rest') : c = c' ∧ rest = rest' := by
  have hinj : ∀ p ∈ shortEscapes, ∀ q ∈ shortEscapes, p.2 = q.2 → p = q := by decide
  have hu : ∀ p ∈ shortEscapes, p.2 ≠ 'u' := by decide
  cases h with
  | short hs =>
    cases h' with
    | short hs' =>
      obtain ⟨hletter, hrest⟩ := List.cons.inj (List.cons.inj heq).2
      exact ⟨congrArg Prod.fst (hinj _ hs _ hs' hletter), hrest⟩
    | codePoint => exact absurd (List.cons.inj (List.cons.inj heq).2).1 (hu _ hs)
    | itself _ hbackslash => exact absurd (List.cons.inj heq).1.symm hbackslash
  | codePoint =>
    cases h' with
    | short hs' => exact absurd (List.cons.inj (List.cons.inj heq).2).1.symm (hu _ hs')
    | codePoint => exact codePointEscape_append_inj heq
    | itself _ hbackslash => exact absurd (List.cons.inj heq).1.symm hbackslash
  | itself _ hbackslash =>
    cases h' with
    | short _ | codePoint => exact absurd (List.cons.inj heq).1 hbackslash
    | itself _ _ => exact List.cons.inj heq

/-- A quoted text tells what it holds and where it ends. -/
theorem quoted_append_inj {t t' rest rest' : Text}
    (h : quoted t ++ rest = quoted t' ++ rest') : t = t' ∧ rest = rest' := by
  have hinner : t.flatMap (escapeChar '"') ++ '"' :: rest =
      t'.flatMap (escapeChar '"') ++ '"' :: rest' := by
    simpa [quoted] using h
  clear h
  induction t generalizing t' with
  | nil =>
    cases t' with
    | nil => exact ⟨rfl, (List.cons.inj hinner).2⟩
    | cons c' t' =>
      rw [List.flatMap_cons, List.append_assoc] at hinner
      exact absurd hinner.symm ((escape_escapeChar c').head_ne _ _)
  | cons c t ih =>
    cases t' with
    | nil =>
      rw [List.flatMap_cons, List.append_assoc] at hinner
      exact absurd hinner ((escape_escapeChar c).head_ne _ _)
    | cons c' t' =>
      simp only [List.flatMap_cons, List.append_assoc] at hinner
      obtain ⟨rfl, hmore⟩ := (escape_escapeChar c).append_inj (escape_escapeChar c') hinner
      obtain ⟨rfl, hrest⟩ := ih hmore
      exact ⟨rfl, hrest⟩

end Text
end RouteTemplates
