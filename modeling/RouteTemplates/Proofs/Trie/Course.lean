import RouteTemplates.Proofs.Trie.Descent

/-!
# The course of a descent

A descent that arrives has been at one level after the other, and at each of them it has
done one of two things.  Behind a slot the level was gone through already when the slot
was taken, in search of a sibling that bounds the value; elsewhere the first sibling that
could be taken was taken.

A course is the part of a descent from one level on.  One step leads to the course from
the level below, so a course can be followed to any level on the way.
-/

namespace RouteTemplates
namespace Node

open Segment

/-- A descent that arrives takes these segments from the siblings on. -/
inductive Course (siblings : List Node) : List Segment → Prop
  | taken {input : Text} :
      (descend siblings input).arrived → Course siblings (descend siblings input).taken
  | bounding {value input : Text} {d : Descent} :
      boundedBy? siblings input = some (value, d) → d.arrived → Course siblings d.taken

variable {trees : List Node} {n : Node} {last : Bool} {input value : Text} {d : Descent}
  {s : Segment} {before more : List Segment}

/-- What is taken through a node begins with the segment of the node and goes on below it. -/
theorem exists_taken_of_take? (h : n.take? last input = some d) (ha : d.arrived) :
    ∃ s more, d.taken = s :: more ∧ n.label = s.unfilled ∧
      (more ≠ [] → Course n.children more) := by
  obtain ⟨label, children⟩ := n
  cases label with
  | start =>
    rw [take?] at h
    obtain rfl := Option.some.inj h
    exact ⟨_, _, rfl, rfl, fun _ => .taken ha⟩
  | finish name =>
    obtain ⟨_, rfl⟩ := take?_finish_eq_some_iff.mp h
    exact ⟨_, _, rfl, rfl, fun hmore => absurd rfl hmore⟩
  | literal role text =>
    obtain ⟨_, _, _, rfl⟩ := take?_literal_eq_some_iff.mp h
    exact ⟨_, _, rfl, rfl, fun _ => .taken ha⟩
  | slot written =>
    obtain ⟨value, below, hbounded, _, rfl⟩ := take?_slot_eq_some_iff.mp h
    exact ⟨_, _, rfl, rfl, fun _ => .bounding hbounded ha⟩
  | filled _ _ => cases h

theorem exists_taken_of_bound? (h : n.bound? input = some (value, d)) (ha : d.arrived) :
    ∃ s more, d.taken = s :: more ∧ n.label = s.unfilled ∧
      (more ≠ [] → Course n.children more) := by
  obtain ⟨label, children⟩ := n
  cases label with
  | finish name =>
    obtain ⟨_, rfl⟩ := bound?_finish_eq_some_iff.mp h
    exact ⟨_, _, rfl, rfl, fun hmore => absurd rfl hmore⟩
  | literal role mark =>
    obtain ⟨_, _, _, rfl⟩ := bound?_literal_eq_some_iff.mp h
    exact ⟨_, _, rfl, rfl, fun _ => .taken ha⟩
  | start | slot _ | filled _ _ => cases h

/-- A course begins with the first sibling that can be taken or, behind a slot, with the
first that can bound its value, and goes on below it. -/
theorem Course.exists_first (h : Course trees (s :: more)) :
    ∃ before n after, trees = before ++ n :: after ∧ n.label = s.unfilled ∧
      (more ≠ [] → Course n.children more) ∧
      ((∃ input d, (∀ m ∈ before, m.take? false input = none) ∧
          n.take? after.isEmpty input = some d ∧ d.taken = s :: more) ∨
        ∃ input found, (∀ m ∈ before, m.bound? input = none) ∧
          n.bound? input = some found ∧ found.2.taken = s :: more) := by
  generalize hsegments : s :: more = segments at h
  cases h with
  | @taken input ha =>
    obtain ⟨before, n, after, htrees, hbefore, htake⟩ := exists_take?_of_arrived ha
    obtain ⟨t, rest, htaken, hlabel, hbelow⟩ := exists_taken_of_take? htake ha
    obtain ⟨rfl, rfl⟩ := List.cons.inj (hsegments.trans htaken)
    exact ⟨before, n, after, htrees, hlabel, hbelow, .inl ⟨input, _, hbefore, htake, rfl⟩⟩
  | @bounding value input d hbounded ha =>
    obtain ⟨before, n, after, htrees, hbefore, hbound⟩ := exists_bound?_of_boundedBy? hbounded
    obtain ⟨t, rest, htaken, hlabel, hbelow⟩ := exists_taken_of_bound? hbound ha
    obtain ⟨rfl, rfl⟩ := List.cons.inj (hsegments.trans htaken)
    exact ⟨before, n, after, htrees, hlabel, hbelow, .inr ⟨input, _, hbefore, hbound, rfl⟩⟩

/-- Behind the segments that were taken before, the course goes on from the level behind
them. -/
theorem Course.behind (h : Course trees (before ++ s :: more)) (hproper : ProperForest trees) :
    Course (behind (before.map unfilled) trees) (s :: more) := by
  induction before generalizing trees with
  | nil => exact h
  | cons t before ih =>
    obtain ⟨passed, n, after, htrees, hlabel, hbelow, _⟩ := h.exists_first
    have hn : n ∈ trees := by simp [htrees]
    rw [List.map_cons, ← hlabel, hproper.behind_cons hn]
    exact ih (hbelow (by simp)) (hproper.proper n hn).forest

end Node

open Segment Node

/-- The row of what an input is resolved to is that of a registered template. -/
theorem Catalog.Registered.isRow_of_resolve {c : Catalog} {ts : List Template}
    (h : c.Registered ts) {input : Text} {found : Template}
    (hf : (c.resolve input).1 = some found) :
    found.row ∈ ts.map Template.row ∧ IsRow found.row := by
  obtain ⟨hroute, hmem, _⟩ := h.sound.represents.route_of_resolve? hf
  have hne : found.row ≠ [] := by
    simpa [Template.row, Template.unfilled] using hroute.taken_ne_nil
  exact ⟨hmem, (h.sound.represents.isRow _ hmem).resolve_left hne⟩

/-- Only the start has nothing before it. -/
theorem Catalog.Registered.before_ne_nil {c : Catalog} {ts : List Template} (h : c.Registered ts)
    {input : Text} {found : Template} (hf : (c.resolve input).1 = some found)
    {before more : List Segment} {s : Segment} (hseg : found.segments = before ++ s :: more)
    (hs : s ≠ .start) : before ≠ [] := by
  rintro rfl
  obtain ⟨_, hstart, _⟩ := IsRow.exists_of_map_unfilled (h.isRow_of_resolve hf).2
  rw [hseg] at hstart
  exact hs (List.cons.inj hstart).1

/-- What an input is resolved to goes on, behind each of its segments, from the level
behind their path. -/
theorem Catalog.Registered.course {c : Catalog} {ts : List Template} (h : c.Registered ts)
    {input : Text} {found : Template} (hf : (c.resolve input).1 = some found)
    {before more : List Segment} {s : Segment} (hseg : found.segments = before ++ s :: more) :
    Course (behind (before.map unfilled) c.trie.roots) (s :: more) := by
  have hall : Course c.trie.roots found.segments := by
    change c.trie.resolve? input = some found at hf
    rw [Trie.resolve?] at hf
    obtain ⟨hcomplete, rfl⟩ := Option.ite_none_right_eq_some.mp hf |>.imp_right Option.some.inj
    exact .taken (Trie.arrived_of_complete hcomplete)
  rw [hseg] at hall
  exact hall.behind h.sound.represents.forest

/-- The level behind a path is the level of what follows the path in the rows. -/
theorem Catalog.Registered.level {c : Catalog} {ts : List Template} (h : c.Registered ts)
    (path : List Segment) :
    Level (ts.map Template.row) path (behind path c.trie.roots) :=
  (h.sound.represents.level h.ranked).behind path

end RouteTemplates
