import RouteTemplates.Proofs.Reassembly
import RouteTemplates.Proofs.Template.Splitting

/-!
# The pieces of a split template

What splitting makes of a literal can be recognized without doing it again: there is a row
of separators and of pieces that hold no separator, it spells the literal, and it is cut
where the separator is met first, and behind that where it is met first in the rest.  Only
one row is like this, also where separators stand side by side or at the ends of the
literal, and where one occurrence overlaps with another.

A piece is a row of this kind for itself, so splitting again changes nothing.
-/

namespace RouteTemplates
namespace Segment

/-- The row stands for the text taken apart at the separator.  A separator and the piece in
front of it, which may be missing, are looked for in what is left of the text there. -/
structure Run (separator text : Text) (run : List Segment) : Prop where
  spelled : run.flatMap matched = text
  pieces : ∀ s ∈ run, s = .literal .separator separator ∨
    ∃ piece, s = .literal .plain piece ∧ piece ≠ [] ∧ ¬ separator <:+: piece
  apart : run.IsChain fun s next => isPlain s → isPlain next = false
  first : ∀ read piece behind,
    run = read ++ (plainOf piece ++ .literal .separator separator :: behind) →
      ∀ before after, piece ++ separator ++ behind.flatMap matched = before ++ separator ++ after →
        Text.byteSize piece ≤ Text.byteSize before

/-- What becomes of a segment of the template. -/
inductive Divided (separator : Text) : Segment → List Segment → Prop
  | plain {text : Text} {run : List Segment} : run ≠ [] → Run separator text run →
      Divided separator (.literal .plain text) run
  | other {s : Segment} : isPlain s = false → Divided separator s [s]

section

variable {separator text : Text} {run : List Segment}

/-! ## Runs -/

/-- Pieces alone are one piece, since no two of them stand side by side. -/
theorem eq_plainOf (hplain : ∀ s ∈ run, ∃ piece, s = .literal .plain piece ∧ piece ≠ [])
    (hapart : run.IsChain fun s next => isPlain s → isPlain next = false) :
    run = plainOf (run.flatMap matched) := by
  match run with
  | [] => rfl
  | [s] =>
    obtain ⟨piece, rfl, hpiece⟩ := hplain s (by simp)
    simp [matched, plainOf, hpiece]
  | s :: next :: more =>
    obtain ⟨piece, rfl, _⟩ := hplain s (by simp)
    obtain ⟨other, rfl, _⟩ := hplain next (by simp)
    cases (List.isChain_cons_cons.mp hapart).1 rfl

theorem Run.of_append {front : List Segment} (h : Run separator text (front ++ run)) :
    Run separator (run.flatMap matched) run := by
  refine ⟨rfl, fun s hs => h.pieces s (List.mem_append_right _ hs), h.apart.right_of_append,
    fun read piece behind hrun => h.first (front ++ read) piece behind ?_⟩
  rw [hrun, List.append_assoc]

theorem run_plainOf (h : ¬ separator <:+: text) : Run separator text (plainOf text) := by
  refine ⟨flatMap_plainOf matched rfl text, fun s hs => ?_, ?_, fun read piece behind hrun => ?_⟩
  · obtain ⟨rfl, ht⟩ := eq_plain_of_mem_plainOf hs
    exact .inr ⟨text, rfl, ht, h⟩
  · unfold plainOf
    split <;> simp
  · have hmem : .literal .separator separator ∈ plainOf text := by simp [hrun]
    cases (eq_plain_of_mem_plainOf hmem).1

/-- A run is made longer in front by a separator and the piece in front of it. -/
theorem Run.cut {before : Text} (h : Run separator text run)
    (hfirst : Text.FirstAfter separator before) (hsep : separator ≠ []) :
    Run separator (before ++ separator ++ text)
      (plainOf before ++ .literal .separator separator :: run) := by
  refine ⟨?_, ?_, ?_, fun read piece behind hrun => ?_⟩
  · rw [List.flatMap_append, List.flatMap_cons, flatMap_plainOf matched rfl, h.spelled,
      List.append_assoc]
    rfl
  · intro s hs
    rcases List.mem_append.mp hs with hs | hs
    · obtain ⟨rfl, hb⟩ := eq_plain_of_mem_plainOf hs
      exact .inr ⟨before, rfl, hb, hfirst.not_isInfix hsep⟩
    · rcases List.mem_cons.mp hs with rfl | hs
      · exact .inl rfl
      · exact h.pieces s hs
  · have hmore : (.literal .separator separator :: run).IsChain
        fun s next => isPlain s → isPlain next = false :=
      List.isChain_cons.mpr ⟨fun _ _ => nofun, h.apart⟩
    unfold plainOf
    split
    · exact hmore
    · refine List.isChain_cons.mpr ⟨?_, hmore⟩
      rintro next ⟨⟩ _
      rfl
  · intro early rest heq
    by_cases hp : piece = []
    · rw [hp]
      exact Nat.zero_le _
    rw [plainOf_of_ne_nil hp, List.singleton_append] at hrun
    rcases List.append_eq_append_iff.mp hrun with ⟨gap, hread, hgap⟩ | ⟨gap, hbefore, hgap⟩
    · -- The separator stands within the run that was there.
      cases gap with
      | nil => cases hgap
      | cons s gap =>
        obtain ⟨_, hbehind⟩ := List.cons.inj hgap
        refine h.first gap piece behind ?_ early rest heq
        rw [hbehind, plainOf_of_ne_nil hp]
        rfl
    · -- It is the one in front, and the piece is the text before it.
      cases gap with
      | nil => cases hgap
      | cons s gap =>
        obtain ⟨rfl, hbehind⟩ := List.cons.inj hgap
        have hs : .literal .plain piece ∈ plainOf before := by simp [hbefore]
        obtain ⟨hpiece, _⟩ := eq_plain_of_mem_plainOf hs
        obtain rfl : piece = before := by simpa using hpiece
        exact hfirst.le_byteSize heq

/-- Without a separator a run is a single piece, or nothing. -/
theorem Run.whole (h : Run separator text run) (hsep : separator ≠ [])
    (hnot : .literal .separator separator ∉ run) : run = plainOf text ∧ ¬ separator <:+: text := by
  have hplain : ∀ s ∈ run, ∃ piece, s = .literal .plain piece ∧ piece ≠ [] ∧
      ¬ separator <:+: piece := fun s hs =>
    (h.pieces s hs).resolve_left fun heq => hnot (heq ▸ hs)
  have hrun : run = plainOf text := by
    rw [← h.spelled]
    exact eq_plainOf (fun s hs => (hplain s hs).imp fun _ hpiece => ⟨hpiece.1, hpiece.2.1⟩) h.apart
  refine ⟨hrun, fun hinfix => ?_⟩
  have ht : text ≠ [] := by
    rintro rfl
    exact hsep (List.infix_nil.mp hinfix)
  have hmem : .literal .plain text ∈ run := by
    rw [hrun, plainOf_of_ne_nil ht]
    exact List.mem_singleton_self _
  obtain ⟨piece, heq, _, hnone⟩ := hplain _ hmem
  obtain rfl : text = piece := by simpa using heq
  exact hnone hinfix

/-- A run with a separator begins with the piece in front of the first one, and another run
stands behind. -/
theorem Run.exists_cut (h : Run separator text run) (hmem : .literal .separator separator ∈ run) :
    ∃ piece behind, run = plainOf piece ++ .literal .separator separator :: behind ∧
      text = piece ++ separator ++ behind.flatMap matched ∧ Text.FirstAfter separator piece ∧
      Run separator (behind.flatMap matched) behind := by
  obtain ⟨front, behind, rfl, hfront⟩ := List.eq_append_cons_of_mem hmem
  have hpieces : ∀ s ∈ front, ∃ piece, s = .literal .plain piece ∧ piece ≠ [] := by
    intro s hs
    obtain ⟨piece, hpiece, hne, _⟩ :=
      (h.pieces s (List.mem_append_left _ hs)).resolve_left fun heq => hfront (heq ▸ hs)
    exact ⟨piece, hpiece, hne⟩
  obtain ⟨piece, rfl⟩ : ∃ piece, front = plainOf piece :=
    ⟨_, eq_plainOf hpieces h.apart.left_of_append⟩
  refine ⟨piece, behind, rfl, ?_, fun before after heq => ?_, ?_⟩
  · rw [← h.spelled, List.flatMap_append, List.flatMap_cons, flatMap_plainOf matched rfl,
      List.append_assoc]
    rfl
  · refine h.first [] piece behind rfl before (after ++ behind.flatMap matched) ?_
    rw [heq, List.append_assoc]
  · rw [List.append_cons] at h
    exact h.of_append

end

end Segment

open Segment

section Splitting

variable {separator : Text} (hsep : separator ≠ []) {text : Text} {run : List Segment}

theorem Template.splitLiteral_run (text : Text) :
    Run separator text (splitLiteral separator hsep text) := by
  fun_induction splitLiteral separator hsep text with
  | case1 text hcut =>
    refine run_plainOf fun hinfix => ?_
    rw [← Text.cutAt?_isSome_iff, hcut] at hinfix
    cases hinfix
  | case2 text before after hcut ih =>
    rw [Text.append_of_cutAt? hcut]
    exact ih.cut (Text.firstAfter_of_cutAt? hcut) hsep

/-- A run is found again by splitting its text. -/
theorem Segment.Run.eq_splitLiteral (h : Run separator text run) :
    run = Template.splitLiteral separator hsep text := by
  fun_induction Template.splitLiteral separator hsep text generalizing run with
  | case1 text hcut =>
    by_cases hmem : .literal .separator separator ∈ run
    · obtain ⟨piece, behind, _, htext, hfirst, _⟩ := h.exists_cut hmem
      rw [htext, Text.cutAt?_of_firstAfter _ hfirst] at hcut
      cases hcut
    · exact (h.whole hsep hmem).1
  | case2 text before after hcut ih =>
    by_cases hmem : .literal .separator separator ∈ run
    · obtain ⟨piece, behind, hrun, htext, hfirst, hbehind⟩ := h.exists_cut hmem
      rw [htext, Text.cutAt?_of_firstAfter _ hfirst] at hcut
      obtain ⟨rfl, rfl⟩ := Prod.mk.inj (Option.some.inj hcut)
      rw [hrun, ← ih hbehind]
    · have hnone := (h.whole hsep hmem).2
      rw [← Text.cutAt?_isSome_iff, hcut] at hnone
      exact absurd rfl hnone

namespace Template

/-! ## Rows -/

theorem splitSegment_of_not_isPlain {s : Segment} (h : isPlain s = false) :
    splitSegment separator hsep s = [s] := by
  unfold splitSegment
  split
  · cases h
  · rfl

/-- A segment is divided in one way, and splitting finds it. -/
theorem divided_iff {s : Segment} (hs : ∀ text ∈ s.literal?, text ≠ []) :
    Divided separator s run ↔ run = splitSegment separator hsep s := by
  constructor
  · rintro (⟨_, hrun⟩ | hplain)
    · exact hrun.eq_splitLiteral hsep
    · exact (splitSegment_of_not_isPlain hsep hplain).symm
  · rintro rfl
    cases hplain : isPlain s with
    | false =>
      rw [splitSegment_of_not_isPlain hsep hplain]
      exact .other hplain
    | true =>
      obtain ⟨text, rfl⟩ := exists_plain_of_isPlain hplain
      have hrun := splitLiteral_run hsep text
      refine .plain (fun hnil => hs text rfl ?_) hrun
      change splitLiteral separator hsep text = [] at hnil
      rw [← hrun.spelled, hnil]
      rfl

theorem forall₂_divided_iff {row : List Segment} {runs : List (List Segment)}
    (hrow : ∀ s ∈ row, ∀ text ∈ s.literal?, text ≠ []) :
    List.Forall₂ (Divided separator) row runs ↔ runs = row.map (splitSegment separator hsep) := by
  induction row generalizing runs with
  | nil => simp
  | cons s row ih =>
    obtain ⟨hs, hrow⟩ := List.forall_mem_cons.mp hrow
    rw [List.forall₂_cons_left_iff]
    constructor
    · rintro ⟨run, more, hrun, hmore, rfl⟩
      rw [(divided_iff hsep hs).mp hrun, (ih hrow).mp hmore]
      rfl
    · rintro rfl
      exact ⟨_, _, (divided_iff hsep hs).mpr rfl, (ih hrow).mpr rfl, rfl⟩

/-- What has been split off is not split again. -/
theorem splitSegment_of_mem {s x : Segment} (hx : x ∈ splitSegment separator hsep s) :
    splitSegment separator hsep x = [x] := by
  cases hplain : isPlain s with
  | false =>
    rw [splitSegment_of_not_isPlain hsep hplain] at hx
    obtain rfl := List.mem_singleton.mp hx
    exact splitSegment_of_not_isPlain hsep hplain
  | true =>
    obtain ⟨text, rfl⟩ := exists_plain_of_isPlain hplain
    rcases (splitLiteral_run hsep text).pieces x hx with rfl | ⟨piece, rfl, hne, hnone⟩
    · rfl
    · have hwhole := (run_plainOf hnone).eq_splitLiteral hsep
      rw [plainOf_of_ne_nil hne] at hwhole
      exact hwhole.symm

theorem flatMap_split_flatMap_split (row : List Segment) :
    (row.flatMap (splitSegment separator hsep)).flatMap (splitSegment separator hsep) =
      row.flatMap (splitSegment separator hsep) := by
  have hsame : ∀ x ∈ row.flatMap (splitSegment separator hsep),
      splitSegment separator hsep x = [x] := by
    intro x hx
    obtain ⟨s, _, hx⟩ := List.mem_flatMap.mp hx
    exact splitSegment_of_mem hsep hx
  rw [List.flatMap_congr hsame, List.flatMap_singleton']

theorem map_unfilled_splitSegment (s : Segment) :
    (splitSegment separator hsep s).map Segment.unfilled =
      splitSegment separator hsep s.unfilled := by
  cases hplain : isPlain s with
  | false =>
    have hunfilled : isPlain s.unfilled = false := by cases s <;> first | rfl | exact hplain
    rw [splitSegment_of_not_isPlain hsep hplain, splitSegment_of_not_isPlain hsep hunfilled]
    rfl
  | true =>
    obtain ⟨text, rfl⟩ := exists_plain_of_isPlain hplain
    have hpieces := (splitLiteral_run hsep text).pieces
    have hsame : ∀ x ∈ splitLiteral separator hsep text, x.unfilled = x := by
      intro x hx
      rcases hpieces x hx with rfl | ⟨piece, rfl, _⟩ <;> rfl
    exact (List.map_congr_left hsame).trans (List.map_id' _)

theorem map_unfilled_flatMap_split (row : List Segment) :
    (row.flatMap (splitSegment separator hsep)).map Segment.unfilled =
      (row.map Segment.unfilled).flatMap (splitSegment separator hsep) := by
  rw [List.map_flatMap, List.flatMap_map]
  exact List.flatMap_congr fun s _ => map_unfilled_splitSegment hsep s

end Template

end Splitting

/-! ## Templates -/

namespace Template

theorem segments_splitOn (t : Template) {separator : Text} (hsep : separator ≠ []) :
    (t.splitOn separator).segments = t.segments.flatMap (splitSegment separator hsep) := by
  rw [splitOn, dif_pos hsep]

theorem slotCount_splitOn (t : Template) (separator : Text) :
    (t.splitOn separator).slotCount = t.slotCount := by
  unfold splitOn
  split <;> rfl

theorem name?_of_framed {t : Template} {body : List Segment} {name : Option Text}
    (h : t.segments = .start :: (body ++ [.finish name])) : t.name? = name := by
  rw [Template.name?, h]
  cases body with
  | nil => rfl
  | cons s body =>
    show ((s :: body) ++ [Segment.finish name]).getLast?.bind Segment.templateName? = name
    rw [List.getLast?_concat]
    rfl

theorem WellFormed.name?_splitOn {t : Template} (h : t.WellFormed) (separator : Text) :
    (t.splitOn separator).name? = t.name? := by
  by_cases hsep : separator = []
  · rw [hsep, splitOn_nil]
  · obtain ⟨more, hseg, htail⟩ := h.framed
    obtain ⟨body, name, rfl, _⟩ := htail.exists_body
    have hsplit : (t.splitOn separator).segments =
        .start :: (body.flatMap (splitSegment separator hsep) ++ [.finish name]) := by
      rw [segments_splitOn t hsep, hseg, List.flatMap_cons, List.flatMap_append]
      rfl
    rw [name?_of_framed hsplit, name?_of_framed hseg]

theorem splitOn_splitOn (t : Template) (separator : Text) :
    (t.splitOn separator).splitOn separator = t.splitOn separator := by
  by_cases hsep : separator = []
  · rw [hsep, splitOn_nil, splitOn_nil]
  · simp only [splitOn, dif_pos hsep, flatMap_split_flatMap_split]

theorem unfilled_splitOn (t : Template) (separator : Text) :
    (t.splitOn separator).unfilled = t.unfilled.splitOn separator := by
  by_cases hsep : separator = []
  · rw [hsep, splitOn_nil, splitOn_nil]
  · simp only [splitOn, dif_pos hsep, Template.unfilled, map_unfilled_flatMap_split]

end Template

/-- A split template keeps the name, the number of slots and all segments but the plain
literals, and each of these is replaced by the one run there is for it.  Splitting once
more changes nothing, captured values can be taken out before or after, and the empty
separator splits nothing. -/
theorem Template.Obtainable.splitOn_divided {t : Template} (h : t.Obtainable)
    (separator : Text) :
    (separator ≠ [] → ∀ split, split = (t.splitOn separator).segments ↔
      ∃ runs, List.Forall₂ (Divided separator) t.segments runs ∧ split = runs.flatten) ∧
    (t.splitOn separator).slotCount = t.slotCount ∧
    (t.splitOn separator).name? = t.name? ∧
    (t.splitOn separator).splitOn separator = t.splitOn separator ∧
    (t.splitOn separator).unfilled = t.unfilled.splitOn separator ∧
    t.splitOn [] = t := by
  have hliterals : ∀ s ∈ t.segments, ∀ text ∈ s.literal?, text ≠ [] := by
    rcases h.fit with rfl | hwell
    · simp [Template.empty]
    · exact hwell.regular.literals
  have hname : (t.splitOn separator).name? = t.name? := by
    rcases h.fit with rfl | hwell
    · rw [splitOn_empty]
    · exact hwell.name?_splitOn separator
  refine ⟨fun hsep split => ?_, slotCount_splitOn t separator, hname, splitOn_splitOn t separator,
    unfilled_splitOn t separator, splitOn_nil t⟩
  rw [segments_splitOn t hsep, List.flatMap_def]
  constructor
  · rintro rfl
    exact ⟨_, (forall₂_divided_iff hsep hliterals).mpr rfl, rfl⟩
  · rintro ⟨runs, hruns, rfl⟩
    rw [(forall₂_divided_iff hsep hliterals).mp hruns]

/-- The literal begins with the separator, and the last two of its occurrences overlap. -/
theorem Template.Obtainable.splitOn_divided_of_overlap :
    let file : Template := .counted
      [.start, .literal .plain ['a', 'a', 'é', 'a', 'a', 'a'], .slot ['<', 'f', '>'],
        .finish (some ['p'])]
    let pieces : List Segment :=
      [.start, .literal .separator ['a', 'a'], .literal .plain ['é'],
        .literal .separator ['a', 'a'], .literal .plain ['a'], .slot ['<', 'f', '>'],
        .finish (some ['p'])]
    pieces = (file.splitOn ['a', 'a']).segments ∧
      (∃ runs, List.Forall₂ (Divided ['a', 'a']) file.segments runs ∧ pieces = runs.flatten) ∧
      (file.splitOn ['a', 'a']).name? = some ['p'] ∧
      (file.splitOn ['a', 'a']).splitOn ['a', 'a'] = file.splitOn ['a', 'a'] := by
  intro file pieces
  have hfile : Template.ofSegments file.segments = .ok file := rfl
  obtain ⟨hsplit, _, hname, htwice, _⟩ := (ofSegments hfile).splitOn_divided ['a', 'a']
  have hpieces : pieces = (file.splitOn ['a', 'a']).segments := by decide +kernel
  exact ⟨hpieces, (hsplit (by decide) pieces).mp hpieces, hname, htwice⟩

end RouteTemplates
