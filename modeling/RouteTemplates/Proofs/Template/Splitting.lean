import RouteTemplates.Proofs.History

/-!
# Splitting and lookups

Splitting cuts a literal into pieces that make up the same text, so a row and its split
row stand for the same texts.  They part at a value.  The value ends where the literal
behind it is met for the first time, and after splitting where the first piece of the
literal is met.  A piece can be met too early, and then the pieces behind it are not
there and the lookup fails.  It cannot be met later than the whole literal, so what a
split template reads, the template reads as well.

The two agree on all inputs if no literal behind a slot is taken apart.
-/

namespace RouteTemplates
namespace Template

open Segment

/-- What the first row reads from an input, the second row reads too. -/
def Narrows (row row' : List Segment) : Prop :=
  ∀ input bs, extractFrom row input = ⟨bs, true⟩ → extractFrom row' input = ⟨bs, true⟩

section

variable {row more more' : List Segment} {written : Text} {input : Text} {bs : Bindings}

theorem Narrows.refl (row : List Segment) : Narrows row row := fun _ _ h => h

theorem Narrows.trans {row row' row'' : List Segment} (h : Narrows row row')
    (h' : Narrows row' row'') : Narrows row row'' :=
  fun input bs hread => h' input bs (h input bs hread)

theorem Narrows.start (h : Narrows more more') : Narrows (.start :: more) (.start :: more') := h

theorem Narrows.literal {role role' : LiteralRole} {text : Text} (h : Narrows more more') :
    Narrows (.literal role text :: more) (.literal role' text :: more') := by
  intro input bs hread
  obtain ⟨rest, rfl, hmore⟩ := extractFrom_literal_eq_iff.mp hread
  exact extractFrom_literal_eq_iff.mpr ⟨rest, rfl, h rest bs hmore⟩

theorem Narrows.filled {value : Text} (h : Narrows more more') :
    Narrows (.filled written value :: more) (.filled written value :: more') := by
  intro input bs hread
  rw [extractFrom] at hread ⊢
  split at hread
  · rename_i taken rest htake
    obtain ⟨rfl, hcomplete⟩ := Extraction.mk.inj hread
    have hmore := h rest _ (show extractFrom more rest = ⟨_, true⟩ by rw [← hcomplete])
    rw [hmore]
    rfl
  · cases hread

/-- A value goes through if the literal behind it is not met any earlier in the second
row. -/
theorem Narrows.slot (hmore : Tail more) (ha : OpensApart more) (hmore' : Tail more')
    (ha' : OpensApart more')
    (hmark : ∀ value, (∀ mark ∈ more.head?.bind literal?, Text.FirstAfter mark value) →
      ∀ mark ∈ more'.head?.bind literal?, Text.FirstAfter mark value)
    (h : Narrows more more') : Narrows (.slot written :: more) (.slot written :: more') := by
  intro input bs hread
  obtain ⟨value, rest, bs', hvalue, hrest, rfl⟩ := extractFrom_slot_eq_iff.mp hread
  obtain ⟨hinput, hfirst, _⟩ := (slotValue?_and_extractFrom_iff hmore ha).mp ⟨hvalue, hrest⟩
  obtain ⟨hvalue', hrest'⟩ := (slotValue?_and_extractFrom_iff hmore' ha').mpr
    ⟨hinput, hmark value hfirst, h rest bs' hrest⟩
  exact extractFrom_slot_eq_iff.mpr ⟨value, rest, bs', hvalue', hrest', rfl⟩

end

/-! ## The pieces of a literal -/

section Splitting

variable {separator : Text} (hsep : separator ≠ []) {text : Text} {row more : List Segment}
  {input : Text} {bs : Bindings}

theorem extractFrom_plainOf_iff (text : Text) :
    extractFrom (plainOf text ++ more) input = ⟨bs, true⟩ ↔
      ∃ rest, input = text ++ rest ∧ extractFrom more rest = ⟨bs, true⟩ := by
  by_cases ht : text = []
  · simp [plainOf, ht]
  · rw [plainOf, if_neg ht]
    exact extractFrom_literal_eq_iff

/-- The pieces of a literal are read where the literal is. -/
theorem extractFrom_splitLiteral_iff (text : Text) :
    extractFrom (splitLiteral separator hsep text ++ more) input = ⟨bs, true⟩ ↔
      ∃ rest, input = text ++ rest ∧ extractFrom more rest = ⟨bs, true⟩ := by
  fun_induction splitLiteral separator hsep text generalizing input with
  | case1 text hcut => exact extractFrom_plainOf_iff text
  | case2 text before after hcut ih =>
    rw [Text.append_of_cutAt? hcut, List.append_assoc, extractFrom_plainOf_iff]
    constructor
    · rintro ⟨_, rfl, hpieces⟩
      obtain ⟨_, rfl, hmore⟩ := extractFrom_literal_eq_iff.mp hpieces
      obtain ⟨rest, rfl, hread⟩ := ih.mp hmore
      exact ⟨rest, by simp, hread⟩
    · rintro ⟨rest, rfl, hread⟩
      refine ⟨separator ++ (after ++ rest), by simp, ?_⟩
      exact extractFrom_literal_eq_iff.mpr ⟨after ++ rest, rfl, ih.mpr ⟨rest, rfl, hread⟩⟩

theorem narrows_splitLiteral (text : Text) (more : List Segment) :
    Narrows (splitLiteral separator hsep text ++ more) (.literal .plain text :: more) :=
  fun _ _ hread =>
    extractFrom_literal_eq_iff.mpr ((extractFrom_splitLiteral_iff hsep text).mp hread)

theorem splitLiteral_narrows (text : Text) (more : List Segment) :
    Narrows (.literal .plain text :: more) (splitLiteral separator hsep text ++ more) :=
  fun _ _ hread =>
    (extractFrom_splitLiteral_iff hsep text).mpr (extractFrom_literal_eq_iff.mp hread)

/-- The first piece of a literal is its beginning. -/
theorem exists_piece (more : List Segment) (ht : text ≠ []) :
    ∃ piece ∈ (splitLiteral separator hsep text ++ more).head?.bind literal?, piece <+: text := by
  fun_cases splitLiteral separator hsep text with
  | case1 hcut => exact ⟨text, by simp [plainOf, ht, literal?], List.prefix_refl _⟩
  | case2 before after hcut =>
    rw [Text.append_of_cutAt? hcut]
    by_cases hb : before = []
    · exact ⟨separator, by simp [plainOf, hb, literal?], by simp [hb]⟩
    · exact ⟨before, by simp [plainOf, hb, literal?], by simp⟩

/-- A literal that is the separator, or does not hold it, is a single piece. -/
theorem literal?_splitLiteral (more : List Segment) (ht : text ≠ [])
    (hwhole : text = separator ∨ ¬ separator <:+: text) :
    (splitLiteral separator hsep text ++ more).head?.bind literal? = some text := by
  fun_cases splitLiteral separator hsep text with
  | case1 hcut => simp [plainOf, ht, literal?]
  | case2 before after hcut =>
    rcases hwhole with rfl | hnot
    · have hself : Text.cutAt? text text = some ([], []) :=
        Text.cutAt?_eq_some_iff.mpr ⟨by simp, Text.firstAfter_nil text⟩
      rw [hself] at hcut
      obtain ⟨rfl, rfl⟩ := Prod.mk.inj (Option.some.inj hcut)
      simp [plainOf, literal?]
    · exact absurd (Text.cutAt?_isSome_iff.mp (by rw [hcut]; rfl)) hnot

/-! ## Rows -/

/-- No literal that stands behind a slot is taken apart by splitting. -/
def MarksWhole (separator : Text) (row : List Segment) : Prop :=
  ∀ written text, [.slot written, .literal .plain text] <:+: row →
    text = separator ∨ ¬ separator <:+: text

theorem MarksWhole.of_cons {s : Segment} (h : MarksWhole separator (s :: more)) :
    MarksWhole separator more :=
  fun written text hmark => h written text (List.infix_cons hmark)

theorem marksWhole_of_not_mem (h : ∀ written, .slot written ∉ row) : MarksWhole separator row :=
  fun written _ hmark => absurd (hmark.subset (by simp)) (h written)

/-- The mark behind a slot is met no later when it has been split. -/
theorem firstAfter_of_split (hm : Tail more) {value : Text}
    (h : ∀ mark ∈ (more.flatMap (splitSegment separator hsep)).head?.bind literal?,
      Text.FirstAfter mark value) :
    ∀ mark ∈ more.head?.bind literal?, Text.FirstAfter mark value := by
  cases hm with
  | finish name => simp [literal?]
  | @literal role text more ht hm =>
    rintro mark ⟨⟩
    cases role with
    | plain =>
      obtain ⟨piece, hpiece, hp⟩ :=
        exists_piece hsep (more.flatMap (splitSegment separator hsep)) ht
      exact Text.FirstAfter.of_isPrefix (h piece hpiece) hp
    | separator => exact h text rfl
  | @slot s more hs ha hm =>
    intro mark hmark
    cases s with
    | slot _ | filled _ _ => cases hmark
    | start | finish _ | literal _ _ => cases hs

/-- The mark behind a slot stays as it was when it is not taken apart. -/
theorem mark_split {written : Text} (hm : Tail more)
    (hwhole : MarksWhole separator (.slot written :: more)) :
    (more.flatMap (splitSegment separator hsep)).head?.bind literal? =
      more.head?.bind literal? := by
  cases hm with
  | finish name => rfl
  | @literal role text more ht hm =>
    cases role with
    | plain =>
      refine literal?_splitLiteral hsep _ ht (hwhole written text ?_)
      exact List.IsPrefix.isInfix (by simp)
    | separator => rfl
  | @slot s more hs ha hm =>
    rw [List.flatMap_cons, splitSegment_of_isSlot hsep hs]
    rfl

theorem narrows_split (h : Tail row) :
    Narrows (row.flatMap (splitSegment separator hsep)) row := by
  induction h with
  | finish name => exact .refl _
  | @literal role text more ht hm ih =>
    rw [List.flatMap_cons]
    cases role with
    | plain => exact (narrows_splitLiteral hsep text _).trans ih.literal
    | separator => exact ih.literal
  | @slot s more hs ha hm ih =>
    rw [List.flatMap_cons, splitSegment_of_isSlot hsep hs, List.singleton_append]
    cases s with
    | slot written =>
      exact .slot (Tail.flatMap_split hsep hm) (opensApart_flatMap_split hsep hm ha) hm ha
        (fun value => firstAfter_of_split hsep hm) ih
    | filled written value => exact ih.filled
    | start | finish _ | literal _ _ => cases hs

theorem split_narrows (h : Tail row) (hwhole : MarksWhole separator row) :
    Narrows row (row.flatMap (splitSegment separator hsep)) := by
  induction h with
  | finish name => exact .refl _
  | @literal role text more ht hm ih =>
    rw [List.flatMap_cons]
    have ih := ih hwhole.of_cons
    cases role with
    | plain => exact ih.literal.trans (splitLiteral_narrows hsep text _)
    | separator => exact ih.literal
  | @slot s more hs ha hm ih =>
    rw [List.flatMap_cons, splitSegment_of_isSlot hsep hs, List.singleton_append]
    have ih := ih hwhole.of_cons
    cases s with
    | slot written =>
      exact .slot hm ha (Tail.flatMap_split hsep hm) (opensApart_flatMap_split hsep hm ha)
        (fun value hfirst => by rwa [mark_split hsep hm hwhole]) ih
    | filled written value => exact ih.filled
    | start | finish _ | literal _ _ => cases hs

end Splitting

/-! ## Lookups -/

/-- Templates with as many slots are looked up as their rows are read. -/
theorem lookup?_of_narrows {t u : Template} (h : Narrows t.segments u.segments)
    (ht : t.segments ≠ []) (hu : u.segments ≠ []) (hcount : t.slotCount = u.slotCount)
    {input : Text} {bs : Bindings} (hread : t.lookup? input = some bs) :
    u.lookup? input = some bs := by
  rw [lookup?_eq_some_iff ht] at hread
  rw [lookup?_eq_some_iff hu, ← hcount]
  exact hread.imp_left (h input bs)

theorem splitOn_nil (t : Template) : t.splitOn [] = t := by
  simp [splitOn]

theorem splitOn_empty (separator : Text) : Template.empty.splitOn separator = .empty := by
  unfold splitOn
  split <;> rfl

end Template

open Template Segment

/-- What is looked up in a split template is found in the template as well, with the same
values.  The two find the same on all inputs if the template has no open slot, or if no
literal behind an open slot is taken apart. -/
theorem Template.Obtainable.lookup?_splitOn {t : Template} (h : t.Obtainable)
    (separator : Text) :
    (∀ input bs, (t.splitOn separator).lookup? input = some bs → t.lookup? input = some bs) ∧
    ((∀ written, .slot written ∉ t.segments) ∨ MarksWhole separator t.segments →
      ∀ input, (t.splitOn separator).lookup? input = t.lookup? input) := by
  rcases h.fit with rfl | hw
  · rw [splitOn_empty]
    exact ⟨fun _ _ hread => hread, fun _ _ => rfl⟩
  by_cases hsep : separator = []
  · rw [hsep, splitOn_nil]
    exact ⟨fun _ _ hread => hread, fun _ _ => rfl⟩
  obtain ⟨more, hseg, htail⟩ := hw.framed
  have hne := hw.segments_ne_nil
  have hne' := (hw.splitOn separator).segments_ne_nil
  have hcount : (t.splitOn separator).slotCount = t.slotCount := by
    rw [Template.splitOn, dif_pos hsep]
  have hsplit : (t.splitOn separator).segments =
      .start :: more.flatMap (splitSegment separator hsep) := by
    rw [Template.splitOn, dif_pos hsep]
    simp only [hseg, List.flatMap_cons]
    rfl
  have hnarrow : Narrows (t.splitOn separator).segments t.segments := by
    rw [hsplit, hseg]
    exact (narrows_split hsep htail).start
  have hread : ∀ input bs, (t.splitOn separator).lookup? input = some bs →
      t.lookup? input = some bs :=
    fun _ _ => lookup?_of_narrows hnarrow hne' hne hcount
  refine ⟨hread, fun hmarks input => ?_⟩
  have hwhole : MarksWhole separator t.segments := hmarks.elim marksWhole_of_not_mem id
  have hwiden : Narrows t.segments (t.splitOn separator).segments := by
    rw [hsplit, hseg]
    rw [hseg] at hwhole
    exact (split_narrows hsep htail hwhole.of_cons).start
  exact Option.ext fun bs =>
    ⟨hread input bs, lookup?_of_narrows hwiden hne hne' hcount.symm⟩

/-- The first template is taken apart behind its slot.  Its first piece is met too early
in the second input, which it no longer matches.  The other template stays whole behind
its slots and is taken apart elsewhere. -/
theorem Template.Obtainable.lookup?_splitOn_of_files :
    let file : Template := .counted
      [.start, .slot ['<', 'd', '>'], .literal .plain ['a', '/', 'b'], .finish none]
    let page : Template := .counted
      [.start, .literal .plain ['/', 'v', '/'], .slot ['<', 'u', '>'], .literal .plain ['/'],
        .slot ['<', 'p', '>'], .literal .plain ['.', '.'], .finish (some ['p'])]
    ((file.splitOn ['/']).lookup? ['é', 'a', '/', 'b'] = some [⟨['d'], ['é']⟩] ∧
      file.lookup? ['é', 'a', '/', 'b'] = some [⟨['d'], ['é']⟩]) ∧
    ((file.splitOn ['/']).lookup? ['a', 'é', 'a', '/', 'b'] = none ∧
      file.lookup? ['a', 'é', 'a', '/', 'b'] = some [⟨['d'], ['a', 'é']⟩]) ∧
    (page.splitOn ['/']).segments.length = 9 ∧ MarksWhole ['/'] page.segments ∧
      ∀ input, (page.splitOn ['/']).lookup? input = page.lookup? input := by
  intro file page
  have hfileOf : Template.ofSegments file.segments = .ok file := rfl
  have hpageOf : Template.ofSegments page.segments = .ok page := rfl
  have hread : (file.splitOn ['/']).lookup? ['é', 'a', '/', 'b'] = some [⟨['d'], ['é']⟩] := by
    decide +kernel
  have hwhole : MarksWhole ['/'] page.segments := by
    intro written text hmark
    simp [page, counted, List.infix_cons_iff] at hmark
    rcases hmark with ⟨-, rfl⟩ | ⟨-, rfl⟩ <;> decide
  exact ⟨⟨hread, ((ofSegments hfileOf).lookup?_splitOn ['/']).1 _ _ hread⟩, by decide +kernel,
    by decide +kernel, hwhole, ((ofSegments hpageOf).lookup?_splitOn ['/']).2 (.inr hwhole)⟩

end RouteTemplates
