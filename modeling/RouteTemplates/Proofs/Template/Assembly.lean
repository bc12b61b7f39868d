import Mathlib.Data.List.Chain
import RouteTemplates.Proofs.Template.WellFormed

/-!
# Assembling a row of segments

A row that is handed over is read once from the left, and what is wrong with it can be
several things at once.  Here it is said of each segment by itself whether it is out of
place, and for what.  The row is refused for the first segment that is, and is a template
when there is none.  The frame comes before all that: without it no segment counts as
standing inside.
-/

namespace RouteTemplates
namespace Segment

/-- The segments that may stand between the two markers. -/
inductive Admissible : Segment → Prop
  | literal {role : LiteralRole} {text : Text} : text ≠ [] → Admissible (.literal role text)
  | slot (written : Text) : Admissible (.slot written)

/-- The segment at `index` is out of place in the row. -/
inductive DefectAt (row : List Segment) (index : Nat) : Defect → Prop
  | start : row[index]? = some .start → 0 < index → index + 1 < row.length →
      DefectAt row index (.misplacedMarker index)
  | finish {name : Option Text} : row[index]? = some (.finish name) → 0 < index →
      index + 1 < row.length → DefectAt row index (.misplacedMarker index)
  | emptyLiteral {role : LiteralRole} : row[index]? = some (.literal role []) →
      DefectAt row index (.emptyLiteral index)
  | filled {written value : Text} : row[index]? = some (.filled written value) →
      DefectAt row index (.filledSlot index)
  | unseparated {before : Nat} {first second : Text} : index = before + 1 →
      row[before]? = some (.slot first) → row[index]? = some (.slot second) →
      DefectAt row index (.unseparatedSlots index)

/-- The defect is that of the leftmost segment out of place. -/
def FirstDefect (row : List Segment) (defect : Defect) : Prop :=
  ∃ index, DefectAt row index defect ∧ ∀ i < index, ∀ earlier, ¬ DefectAt row i earlier

/-- A report is justified if it is of the first defect, or if there is none to report. -/
def Justified (row : List Segment) : Option Defect → Prop
  | some defect => FirstDefect row defect
  | none => ∀ index defect, ¬ DefectAt row index defect

section

variable {row : List Segment} {index : Nat} {defect other : Defect}

theorem DefectAt.unique (h : DefectAt row index defect) (h' : DefectAt row index other) :
    other = defect := by
  cases h <;> cases h' <;> simp_all

theorem FirstDefect.unique (h : FirstDefect row defect) (h' : FirstDefect row other) :
    other = defect := by
  obtain ⟨i, hi, hfirst⟩ := h
  obtain ⟨j, hj, hfirst'⟩ := h'
  rcases Nat.lt_trichotomy i j with hlt | rfl | hlt
  · exact absurd hi (hfirst' i hlt defect)
  · exact hi.unique hj
  · exact absurd hj (hfirst j hlt other)

theorem not_defectAt_literal {role : LiteralRole} {text : Text}
    (hs : row[index]? = some (.literal role text)) (ht : text ≠ []) :
    ¬ DefectAt row index defect := by
  intro h
  cases h <;> simp_all

theorem not_defectAt_slot {written : Text} (hs : row[index]? = some (.slot written))
    (hbefore : ∀ before first, index = before + 1 → row[before]? ≠ some (.slot first)) :
    ¬ DefectAt row index defect := by
  intro h
  cases h with
  | start hs' | finish hs' | emptyLiteral hs' | filled hs' => cases hs.symm.trans hs'
  | unseparated hindex hfirst => exact hbefore _ _ hindex hfirst

/-- The end stands where it has to, and no segment stands behind it. -/
theorem not_defectAt_of_end {read : List Segment} {name : Option Text}
    (hrow : row = read ++ [.finish name]) (hindex : read.length ≤ index) :
    ¬ DefectAt row index defect := by
  have hlast : ∀ s, row[index]? = some s → s = .finish name := by
    intro s hs
    rw [hrow, List.getElem?_append_right hindex] at hs
    exact List.mem_singleton.mp (List.mem_of_getElem? hs)
  intro h
  cases h with
  | start _ _ hlt | finish _ _ hlt =>
    rw [hrow, List.length_append, List.length_singleton] at hlt
    omega
  | emptyLiteral hs | filled hs | unseparated _ _ hs => cases hlast _ hs

end

end Segment

namespace Template

open Segment

/-- A body passes the scan when each of its segments may stand inside and no slot follows
another one or the slot in front of the body. -/
theorem bodyDefect?_eq_none_iff {index : Nat} {afterSlot : Bool} {body : List Segment} :
    bodyDefect? index afterSlot body = none ↔
      (∀ s ∈ body, Admissible s) ∧
        (body.IsChain fun s next => s.isSlot → next.isSlot = false) ∧
        (afterSlot → OpensApart body) := by
  induction body generalizing index afterSlot with
  | nil => simp [bodyDefect?, OpensApart]
  | cons s body ih =>
    rw [List.forall_mem_cons, List.isChain_cons]
    cases s with
    | start | finish _ | filled _ _ =>
      refine iff_of_false (Option.some_ne_none _) ?_
      rintro ⟨⟨hs, _⟩, _⟩
      cases hs
    | literal role text =>
      rw [bodyDefect?]
      by_cases ht : text = []
      · rw [if_pos ht]
        refine iff_of_false (Option.some_ne_none _) ?_
        rintro ⟨⟨hs, _⟩, _⟩
        cases hs with
        | literal hne => exact hne ht
      · rw [if_neg ht, ih]
        constructor
        · rintro ⟨hbody, hchain, _⟩
          exact ⟨⟨.literal ht, hbody⟩, ⟨by simp [isSlot, slotName?], hchain⟩,
            fun _ => opensApart_literal role text body⟩
        · rintro ⟨⟨_, hbody⟩, ⟨_, hchain⟩, _⟩
          exact ⟨hbody, hchain, by simp⟩
    | slot written =>
      rw [bodyDefect?]
      cases afterSlot with
      | true =>
        rw [if_pos rfl]
        refine iff_of_false (Option.some_ne_none _) ?_
        rintro ⟨_, _, hopens⟩
        cases hopens rfl (.slot written) rfl
      | false =>
        rw [if_neg (by simp), ih]
        constructor
        · rintro ⟨hbody, hchain, hopens⟩
          exact ⟨⟨.slot written, hbody⟩, ⟨fun next hnext _ => hopens rfl next hnext, hchain⟩,
            by simp⟩
        · rintro ⟨⟨_, hbody⟩, ⟨hapart, hchain⟩, _⟩
          exact ⟨hbody, hchain, fun _ next hnext => hapart next hnext rfl⟩

/-- What a scan reports of the rest of a body is justified for the whole row, if nothing
before is out of place. -/
theorem justified_bodyDefect? {row read rest : List Segment} {name : Option Text}
    {afterSlot : Bool} (hrow : row = read ++ (rest ++ [.finish name])) (hread : read ≠ [])
    (hafter : afterSlot = true ↔ ∃ first, read.getLast? = some (.slot first))
    (hclean : ∀ i < read.length, ∀ defect, ¬ DefectAt row i defect) :
    Justified row (bodyDefect? read.length afterSlot rest) := by
  have hpos : 0 < read.length := List.length_pos_iff.mpr hread
  induction rest generalizing read afterSlot with
  | nil =>
    intro i defect
    by_cases hi : i < read.length
    · exact hclean i hi defect
    · exact not_defectAt_of_end hrow (Nat.le_of_not_lt hi)
  | cons s rest ih =>
    have hs : row[read.length]? = some s := by simp [hrow]
    have hlength : read.length + 1 < row.length := by simp [hrow]
    -- A segment that is in place is left behind.
    have hmore : ∀ afterSlot', (∀ defect, ¬ DefectAt row read.length defect) →
        (afterSlot' = true ↔ ∃ first, s = .slot first) →
        Justified row (bodyDefect? (read.length + 1) afterSlot' rest) := by
      intro afterSlot' hplace hslot
      have hnext := @ih (read ++ [s]) afterSlot' (by simp [hrow]) (by simp)
        (by simpa using hslot)
      rw [List.length_append, List.length_singleton] at hnext
      refine hnext (fun i hi => ?_) (Nat.succ_pos _)
      rcases Nat.lt_succ_iff_lt_or_eq.mp hi with hlt | rfl
      · exact hclean i hlt
      · exact hplace
    cases s with
    | start => exact ⟨_, .start hs hpos hlength, hclean⟩
    | finish first => exact ⟨_, .finish hs hpos hlength, hclean⟩
    | filled written value => exact ⟨_, .filled hs, hclean⟩
    | literal role text =>
      rw [bodyDefect?]
      by_cases ht : text = []
      · subst ht
        rw [if_pos rfl]
        exact ⟨_, .emptyLiteral hs, hclean⟩
      · rw [if_neg ht]
        exact hmore false (fun _ => not_defectAt_literal hs ht) (by simp)
    | slot written =>
      rw [bodyDefect?]
      by_cases ha : afterSlot = true
      · rw [if_pos ha]
        obtain ⟨first, hfirst⟩ := hafter.mp ha
        obtain ⟨front, rfl⟩ := List.getLast?_eq_some_iff.mp hfirst
        have hbefore : row[front.length]? = some (.slot first) := by simp [hrow]
        exact ⟨_, .unseparated (by simp) hbefore hs, hclean⟩
      · rw [if_neg ha]
        refine hmore true (fun _ => not_defectAt_slot hs ?_) (by simp)
        intro before first hindex hfirst
        refine ha (hafter.mpr ⟨first, ?_⟩)
        rw [List.getLast?_eq_getElem?, hindex, Nat.add_sub_cancel]
        rwa [hrow, List.getElem?_append_left (by omega)] at hfirst

/-! ## The frame -/

theorem ofSegments_of_not_start {row : List Segment} (h : row.head? ≠ some .start) :
    ofSegments row = .error .missingStart := by
  unfold ofSegments
  split
  · exact absurd rfl h
  · rfl

theorem ofSegments_of_not_ends {framed : List Segment} (h : ¬ Ends framed) :
    ofSegments (.start :: framed) = .error .missingFinish := by
  unfold ofSegments
  dsimp only
  split
  · rename_i name hlast
    exact absurd ⟨_, hlast, rfl⟩ h
  · rfl

section

variable {body : List Segment} {name : Option Text}

theorem ofSegments_framed :
    ofSegments (.start :: (body ++ [.finish name])) =
      (bodyDefect? 1 false body).elim (.ok (counted (.start :: (body ++ [.finish name]))))
        .error := by
  rw [ofSegments, List.getLast?_concat, List.dropLast_concat]
  cases bodyDefect? 1 false body <;> rfl

theorem exists_ofSegments_framed_iff :
    (∃ t, ofSegments (.start :: (body ++ [.finish name])) = .ok t) ↔
      bodyDefect? 1 false body = none := by
  rw [ofSegments_framed]
  cases bodyDefect? 1 false body <;> simp

/-- A framed row is refused for its first defect and for nothing else. -/
theorem ofSegments_framed_eq_error_iff {defect : Defect} :
    ofSegments (.start :: (body ++ [.finish name])) = .error defect ↔
      FirstDefect (.start :: (body ++ [.finish name])) defect := by
  have hstart : ∀ i < [Segment.start].length, ∀ defect,
      ¬ DefectAt ([.start] ++ (body ++ [.finish name])) i defect := by
    intro i hi defect h
    obtain rfl := Nat.lt_one_iff.mp hi
    cases h with
    | start _ hpos | finish _ hpos => exact absurd hpos (Nat.lt_irrefl 0)
    | emptyLiteral hs | filled hs | unseparated _ _ hs => cases hs
  have hreport := @justified_bodyDefect? _ [.start] body name false rfl (by simp) (by simp) hstart
  rw [List.length_singleton] at hreport
  rw [ofSegments_framed]
  cases hbody : bodyDefect? 1 false body with
  | none =>
    rw [hbody] at hreport
    refine iff_of_false (fun h => by cases h) ?_
    rintro ⟨i, hi, _⟩
    exact hreport i defect hi
  | some found =>
    rw [hbody] at hreport
    constructor
    · intro h
      obtain rfl := Except.error.inj h
      exact hreport
    · intro h
      rw [FirstDefect.unique hreport h]
      rfl

end

/-! ## Whole rows -/

section

variable {row : List Segment}

theorem ofSegments_eq_missingStart_iff :
    ofSegments row = .error .missingStart ↔ row.head? ≠ some .start := by
  refine ⟨?_, ofSegments_of_not_start⟩
  intro h hstart
  obtain ⟨framed, rfl⟩ := List.head?_eq_some_iff.mp hstart
  by_cases hends : Ends framed
  · obtain ⟨body, name, rfl⟩ := hends.exists_append_finish
    obtain ⟨i, hi, _⟩ := ofSegments_framed_eq_error_iff.mp h
    cases hi
  · rw [ofSegments_of_not_ends hends] at h
    cases h

theorem ofSegments_eq_missingFinish_iff (hstart : row.head? = some .start) :
    ofSegments row = .error .missingFinish ↔
      row.length = 1 ∨ ∀ last ∈ row.getLast?, last.isFinish = false := by
  obtain ⟨framed, rfl⟩ := List.head?_eq_some_iff.mp hstart
  constructor
  · intro h
    by_cases hnil : framed = []
    · exact .inl (by rw [hnil]; rfl)
    refine .inr fun last hlast => ?_
    by_contra hfinish
    obtain ⟨body, name, rfl⟩ := Ends.exists_append_finish
      ((ends_cons hnil).mp ⟨last, hlast, by simpa using hfinish⟩)
    obtain ⟨i, hi, _⟩ := ofSegments_framed_eq_error_iff.mp h
    cases hi
  · intro h
    refine ofSegments_of_not_ends fun hends => ?_
    rcases h with hsingle | hlast
    · obtain rfl : framed = [] := by simpa using hsingle
      exact not_ends_nil hends
    · obtain ⟨last, hlast', hfinish⟩ := hends
      have hrow : last ∈ (Segment.start :: framed).getLast? := by
        rw [List.getLast?_cons, Option.mem_def.mp hlast']
        rfl
      rw [hlast last hrow] at hfinish
      cases hfinish

end

/-- The frame of a row is looked at first, its start before its end.  A framed row is
assembled if its inner segments may stand there and no slot follows another, to the
template of the same segments, and is refused for its first defect otherwise. -/
theorem ofSegments_decided (row : List Segment) :
    (ofSegments row = .error .missingStart ↔ row.head? ≠ some .start) ∧
    (row.head? = some .start →
      (ofSegments row = .error .missingFinish ↔
        row.length = 1 ∨ ∀ last ∈ row.getLast?, last.isFinish = false)) ∧
    ∀ body name, row = .start :: (body ++ [.finish name]) →
      ((∃ t, ofSegments row = .ok t) ↔
        (∀ s ∈ body, Admissible s) ∧
          body.IsChain fun s next => s.isSlot → next.isSlot = false) ∧
      (∀ t, ofSegments row = .ok t → t.segments = row ∧ t.slotCount = row.countP isSlot) ∧
      ∀ defect, ofSegments row = .error defect ↔ FirstDefect row defect := by
  refine ⟨ofSegments_eq_missingStart_iff, ofSegments_eq_missingFinish_iff, ?_⟩
  rintro body name rfl
  refine ⟨?_, fun t ht => ?_, fun defect => ofSegments_framed_eq_error_iff⟩
  · rw [exists_ofSegments_framed_iff, bodyDefect?_eq_none_iff]
    simp
  · obtain rfl := eq_counted_of_ofSegments ht
    exact ⟨rfl, rfl⟩

/-- The first row has four segments out of place, and is refused for the leftmost.  The
second has a separator between its slots. -/
theorem ofSegments_decided_of_crowd :
    let crowd : List Segment :=
      [.literal .plain ['é'], .slot ['<', 'a', '>'], .slot ['<', 'b', '>'],
        .literal .separator [], .start, .filled ['<', 'c', '>'] ['x']]
    let apart : List Segment :=
      [.slot ['<', 'a', '>'], .literal .separator ['/'], .slot ['<', 'b', '>']]
    (ofSegments (.start :: (crowd ++ [.finish none])) = .error (.unseparatedSlots 3) ∧
      FirstDefect (.start :: (crowd ++ [.finish none])) (.unseparatedSlots 3) ∧
      ofSegments (.start :: (crowd ++ [.finish none])) ≠ .error .missingFinish) ∧
    (∀ s ∈ apart, Admissible s) ∧
      ∃ t, ofSegments (.start :: (apart ++ [.finish none])) = .ok t ∧ t.slotCount = 2 := by
  intro crowd apart
  obtain ⟨_, hends, hcrowd⟩ := ofSegments_decided (.start :: (crowd ++ [.finish none]))
  obtain ⟨_, _, hdefect⟩ := hcrowd crowd none rfl
  have hrefused : ofSegments (.start :: (crowd ++ [.finish none])) =
      .error (.unseparatedSlots 3) := rfl
  refine ⟨⟨hrefused, (hdefect _).mp hrefused, fun hmissing => ?_⟩, ?_⟩
  · rcases (hends rfl).mp hmissing with hsingle | hlast
    · cases hsingle
    · cases hlast (.finish none) rfl
  · obtain ⟨hplaced, hmade, _⟩ :=
      (ofSegments_decided (.start :: (apart ++ [.finish none]))).2.2 apart none rfl
    have hmadeOf : ofSegments (.start :: (apart ++ [.finish none])) = .ok (.counted _) := rfl
    exact ⟨(hplaced.mp ⟨_, hmadeOf⟩).1, _, hmadeOf, (hmade _ hmadeOf).2⟩

end Template
end RouteTemplates
