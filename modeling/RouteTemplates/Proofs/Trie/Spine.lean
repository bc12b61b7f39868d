import RouteTemplates.Proofs.Template.Instance
import RouteTemplates.Proofs.Trie.Shape
import RouteTemplates.Trie.Resolution

/-!
# Tries with one body

When all rows of a trie agree up to their ends, the trie is one spine with the
ends side by side at its foot.  On a spine there is nothing to choose, so a
descent gets as far as an extraction does.  The rules by which a descent passes
over a sibling must not matter then: a literal that only an end follows is passed
over where the end could not be taken, and an empty value is never left to a later
sibling since there is none.
-/

namespace RouteTemplates
namespace Node

open Segment

/-- Each level is one node, labelled with the next segment of the body, and below
the last one there are ends only. -/
inductive Spine : List Segment → List Node → Prop
  | ends {trees : List Node} : trees ≠ [] → (∀ n ∈ trees, n.label.isFinish) → Spine [] trees
  | step {s : Segment} {body : List Segment} {children : List Node} :
      Spine body children → Spine (s :: body) [.mk s children]

/-! ## Where the rows agree -/

theorem leafPaths_ne_nil (n : Node) : n.leafPaths ≠ [] := by
  induction n using Node.induction with
  | step label children ih =>
    rw [leafPaths]
    split
    · simp
    · rename_i hne
      obtain ⟨c, more, rfl⟩ := List.exists_cons_of_ne_nil (by simpa using hne)
      simp [leafPathsOf, ih c List.mem_cons_self]

/-- From each sibling a way leads down to a leaf. -/
theorem exists_mem_leafPathsOf {trees : List Node} {n : Node} (hn : n ∈ trees) :
    ∃ r, n.label :: r ∈ leafPathsOf trees ∧ (r = [] ∨ r ∈ leafPathsOf n.children) := by
  obtain ⟨q, hq⟩ := List.exists_mem_of_ne_nil _ (leafPaths_ne_nil n)
  have hmem : q ∈ leafPathsOf trees := by
    rw [leafPathsOf_eq_flatMap]
    exact List.mem_flatMap.mpr ⟨n, hn, hq⟩
  obtain ⟨label, children⟩ := n
  rw [leafPaths] at hq
  split at hq
  · rw [List.mem_singleton.mp hq] at hmem
    exact ⟨[], hmem, .inl rfl⟩
  · obtain ⟨r, hr, rfl⟩ := List.mem_map.mp hq
    exact ⟨r, hmem, .inr hr⟩

theorem cons_mem_leafPathsOf {trees : List Node} {n : Node} (hn : n ∈ trees) {r : List Segment}
    (hr : r ∈ leafPathsOf n.children) : n.label :: r ∈ leafPathsOf trees := by
  rw [leafPathsOf_eq_flatMap]
  refine List.mem_flatMap.mpr ⟨n, hn, ?_⟩
  obtain ⟨label, children⟩ := n
  rw [leafPaths]
  split
  · rename_i hempty
    rw [children_mk, List.isEmpty_iff.mp hempty] at hr
    cases hr
  · exact List.mem_map_of_mem hr

theorem spine_of_leafPaths {trees : List Node} {body : List Segment} (h : ProperForest trees)
    (hne : trees ≠ []) (hbody : ∀ q ∈ leafPathsOf trees, q.dropLast = body) :
    Spine body trees := by
  induction body generalizing trees with
  | nil =>
    refine .ends hne fun n hn => ?_
    obtain ⟨r, hleaf, _⟩ := exists_mem_leafPathsOf hn
    obtain rfl : r = [] := by
      have hlength := congrArg List.length (hbody _ hleaf)
      simpa using hlength
    exact ends_singleton.mp (h.mem_leafPathsOf.mp hleaf).2
  | cons s body ih =>
    have hlevel : ∀ n ∈ trees, n.label = s ∧ n.children ≠ [] := by
      intro n hn
      obtain ⟨r, hleaf, hr⟩ := exists_mem_leafPathsOf hn
      have hdrop := hbody _ hleaf
      rcases hr with rfl | hr
      · cases hdrop
      · have hrne := ne_nil_of_mem_pathsOf ((leafPathsOf_sublist n.children).subset hr)
        rw [List.dropLast_cons_of_ne_nil hrne] at hdrop
        refine ⟨(List.cons.inj hdrop).1, fun hnone => ?_⟩
        rw [hnone] at hr
        cases hr
    obtain ⟨n, more, rfl⟩ := List.exists_cons_of_ne_nil hne
    -- A second sibling would have the same label.
    obtain rfl : more = [] := by
      cases more with
      | nil => rfl
      | cons m more =>
        have hdistinct := h.distinct
        simp [(hlevel n (by simp)).1, (hlevel m (by simp)).1] at hdistinct
    have hn : n ∈ [n] := List.mem_singleton_self n
    obtain ⟨hlabel, hchildren⟩ := hlevel n hn
    have hbelow : Spine body n.children := by
      refine ih (h.proper n hn).forest hchildren fun q hq => ?_
      have hqne := ne_nil_of_mem_pathsOf ((leafPathsOf_sublist n.children).subset hq)
      have hdrop := hbody _ (cons_mem_leafPathsOf hn hq)
      rw [List.dropLast_cons_of_ne_nil hqne] at hdrop
      exact (List.cons.inj hdrop).2
    obtain ⟨label, children⟩ := n
    obtain rfl : label = s := hlabel
    exact .step hbelow

/-! ## Going down a spine -/

theorem descend_ends_of_ne_nil {trees : List Node} (h : ∀ n ∈ trees, n.label.isFinish)
    {input : Text} (hinput : input ≠ []) : descend trees input = .stuck := by
  induction trees with
  | nil => rw [descend]
  | cons n more ih =>
    obtain ⟨label, children⟩ := n
    obtain ⟨hfirst, hmore⟩ := List.forall_mem_cons.mp h
    cases label with
    | finish name => rw [descend, take?, if_neg hinput, ih hmore]
    | start | literal _ _ | slot _ | filled _ _ => cases hfirst

theorem arrived_descend_ends {trees : List Node} (hne : trees ≠ [])
    (h : ∀ n ∈ trees, n.label.isFinish) (input : Text) :
    (descend trees input).arrived = input.isEmpty := by
  by_cases hinput : input = []
  · obtain ⟨⟨label, children⟩, more, rfl⟩ := List.exists_cons_of_ne_nil hne
    have hfirst := h _ List.mem_cons_self
    cases label with
    | finish name => rw [descend, take?, if_pos hinput, hinput]; rfl
    | start | literal _ _ | slot _ | filled _ _ => cases hfirst
  · rw [descend_ends_of_ne_nil h hinput, List.isEmpty_eq_false_iff.mpr hinput]
    rfl

theorem descend_singleton (n : Node) (input : Text) :
    descend [n] input = (n.take? true input).getD .stuck := by
  rw [descend, List.isEmpty_nil]
  cases n.take? true input with
  | none => rw [descend]; rfl
  | some d => rfl

theorem isFinish_of_endsHere {trees : List Node} (h : endsHere trees) :
    ∀ n ∈ trees, n.label.isFinish := by
  unfold endsHere at h
  split at h
  · simp [isFinish]
  · cases h

/-- Below a literal the descent goes on behind it, whether or not the literal is
passed over: it is passed over only where the end below it cannot be taken. -/
theorem arrived_descend_literal {role : LiteralRole} {text : Text} {children : List Node}
    (rest : Text) :
    (descend [mk (.literal role text) children] (text ++ rest)).arrived =
      (descend children rest).arrived := by
  have hfront : text.isPrefixOf? (text ++ rest) = some rest :=
    Text.isPrefixOf?_eq_some_iff.mpr rfl
  rw [descend_singleton, take?, hfront]
  by_cases hpassed : endsHere children ∧ rest ≠ []
  · obtain ⟨hend, hrest⟩ := hpassed
    rw [descend_ends_of_ne_nil (isFinish_of_endsHere hend) hrest]
    simp [hend, hrest, Descent.stuck]
  · simp [hpassed, Descent.cons]

theorem not_tail_finish_append (name next : Option Text) (body : List Segment) :
    ¬ Tail (.finish name :: (body ++ [.finish next])) := by
  intro h
  generalize hmore : body ++ [.finish next] = more at h
  cases h with
  | finish => simp at hmore
  | slot hs => cases hs

/-- A descent takes a slot of a spine with the value that an extraction gives it,
and goes on below the slot as the extraction goes on behind it. -/
theorem Spine.arrived_descend_slot {body : List Segment} {children : List Node}
    (h : Spine body children) {name : Option Text} (htail : Tail (body ++ [.finish name]))
    (ha : OpensApart (body ++ [.finish name])) (written input : Text) :
    (descend [mk (.slot written) children] input).arrived =
      (Template.slotValue? (body ++ [.finish name]) input).any fun found =>
        (descend children found.2).arrived := by
  rw [descend_singleton, take?]
  cases h with
  | ends hne hfinish =>
    rw [List.nil_append, Template.slotValue?, Option.any_some, arrived_descend_ends hne hfinish]
    obtain ⟨⟨label, below⟩, others, rfl⟩ := List.exists_cons_of_ne_nil hne
    have hfirst := hfinish _ List.mem_cons_self
    cases label with
    | finish first => simp [boundedBy?, bound?, Descent.cons, Descent.arrival]
    | start | literal _ _ | slot _ | filled _ _ => cases hfirst
  | @step s body below hbelow =>
    have hslot := ha s rfl
    cases s with
    | literal role mark =>
      rw [List.cons_append, Template.slotValue?, boundedBy?, boundedBy?, bound?]
      cases hcut : Text.cutAt? mark input with
      | none => rfl
      | some found =>
        rw [Option.map_some, Option.any_some, arrived_descend_literal]
        simp [Descent.cons]
    | finish first => exact absurd htail (not_tail_finish_append first name body)
    | start => cases htail with | slot hs => cases hs
    | slot _ | filled _ _ => cases hslot

theorem complete_extractFrom_slot (written : Text) (more : List Segment) (input : Text) :
    (Template.extractFrom (.slot written :: more) input).complete =
      (Template.slotValue? more input).any fun found =>
        (Template.extractFrom more found.2).complete := by
  rw [Template.extractFrom]
  cases Template.slotValue? more input <;> rfl

/-- On a spine a descent arrives where an extraction is complete. -/
theorem Spine.arrived_descend {body : List Segment} {trees : List Node} (h : Spine body trees)
    {name : Option Text} (htail : Tail (body ++ [.finish name]))
    (hopen : ∀ s ∈ body, s.isFilled = false) (input : Text) :
    (descend trees input).arrived =
      (Template.extractFrom (body ++ [.finish name]) input).complete := by
  induction h generalizing input with
  | ends hne hfinish => exact arrived_descend_ends hne hfinish input
  | @step s body children hbelow ih =>
    obtain ⟨hfilled, hbelowOpen⟩ := List.forall_mem_cons.mp hopen
    rw [List.cons_append] at htail ⊢
    cases s with
    | literal role text =>
      cases htail with
      | slot hs => cases hs
      | literal _ hm =>
        cases hfront : text.isPrefixOf? input with
        | none =>
          rw [descend_singleton, take?, hfront, Template.extractFrom, hfront]
          rfl
        | some rest =>
          rw [Text.isPrefixOf?_eq_some_iff.mp hfront, arrived_descend_literal,
            Template.extractFrom_literal]
          exact ih hm hbelowOpen rest
    | slot written =>
      cases htail with
      | slot _ ha hm =>
        rw [hbelow.arrived_descend_slot hm ha, complete_extractFrom_slot]
        simp only [ih hm hbelowOpen]
    | finish first => exact absurd htail (not_tail_finish_append first name body)
    | start => cases htail with | slot hs => cases hs
    | filled _ _ => cases hfilled

end Node
end RouteTemplates
