import RouteTemplates.Proofs.History
import RouteTemplates.Proofs.Trie.Continuations

/-!
# Steps of a descent

What a descent can do at a level is said once: it goes through a node that can be
taken, behind siblings that cannot, or it is stuck.  For each kind of node it is said
when the node can be taken, what is left of the input then, and how the descent goes on
below.  The same is said of the children of a slot, one of which has to bound the value.
Resolving an input is one such descent, from the level behind the start.
-/

namespace RouteTemplates
namespace Node

variable {trees before after children : List Node} {n : Node} {last : Bool} {input : Text}
  {role : LiteralRole} {text mark written value : Text} {name : Option Text} {d : Descent}

/-- A descent goes through the first sibling that can be taken. -/
theorem descend_eq_stuck_or (trees : List Node) (input : Text) :
    (descend trees input = .stuck ∧ ∀ n ∈ trees, ∃ last, n.take? last input = none) ∨
      ∃ before n after, trees = before ++ n :: after ∧
        (∀ m ∈ before, m.take? false input = none) ∧
        n.take? after.isEmpty input = some (descend trees input) := by
  induction trees with
  | nil => exact .inl ⟨by rw [descend], by simp⟩
  | cons n more ih =>
    rw [descend]
    cases htake : n.take? more.isEmpty input with
    | some d => exact .inr ⟨[], n, more, rfl, by simp, htake⟩
    | none =>
      refine ih.imp ?_ ?_
      · rintro ⟨hstuck, hmore⟩
        exact ⟨hstuck, List.forall_mem_cons.mpr ⟨⟨_, htake⟩, hmore⟩⟩
      · rintro ⟨before, m, after, rfl, hbefore, hm⟩
        have hfollowed : (before ++ m :: after).isEmpty = false := by cases before <;> rfl
        have hn : n.take? false input = none := by rwa [hfollowed] at htake
        exact ⟨n :: before, m, after, rfl, List.forall_mem_cons.mpr ⟨hn, hbefore⟩, hm⟩

theorem exists_take?_of_arrived (h : (descend trees input).arrived) :
    ∃ before n after, trees = before ++ n :: after ∧
      (∀ m ∈ before, m.take? false input = none) ∧
      n.take? after.isEmpty input = some (descend trees input) := by
  refine (descend_eq_stuck_or trees input).resolve_left ?_
  rintro ⟨hstuck, _⟩
  rw [hstuck] at h
  cases h

/-- Where a node can be taken, some node is. -/
theorem exists_take?_of_mem (hn : n ∈ trees) (htake : ∀ last, (n.take? last input).isSome) :
    ∃ before m after, trees = before ++ m :: after ∧
      (∀ k ∈ before, k.take? false input = none) ∧
      m.take? after.isEmpty input = some (descend trees input) := by
  refine (descend_eq_stuck_or trees input).resolve_left ?_
  rintro ⟨_, hnone⟩
  obtain ⟨last, hlast⟩ := hnone n hn
  have hsome := htake last
  rw [hlast] at hsome
  cases hsome

/-- Whichever of these nodes is taken, the descent through it arrives. -/
def Sure (trees : List Node) (input : Text) : Prop :=
  ∀ n ∈ trees, ∀ last d, n.take? last input = some d → d.arrived

/-- Where every choice is sure, one node that can be taken is enough. -/
theorem Sure.arrived_descend (hsure : Sure (before ++ n :: after) input)
    (hn : (n.take? after.isEmpty input).isSome) :
    (descend (before ++ n :: after) input).arrived := by
  induction before with
  | nil =>
    obtain ⟨d, hd⟩ := Option.isSome_iff_exists.mp hn
    rw [List.nil_append, descend, hd]
    exact hsure n (by simp) _ d hd
  | cons m before ih =>
    rw [List.cons_append, descend]
    cases htake : m.take? (before ++ n :: after).isEmpty input with
    | some d => exact hsure m (by simp) _ d htake
    | none => exact ih fun k hk => hsure k (List.mem_cons_of_mem m hk)

theorem take?_finish_eq_some_iff :
    (mk (.finish name) children).take? last input = some d ↔
      input = [] ∧ d = .arrival (.finish name) := by
  rw [take?, Option.ite_none_right_eq_some, Option.some.injEq, eq_comm (a := d)]

theorem take?_literal_eq_some_iff :
    (mk (.literal role text) children).take? last input = some d ↔
      ∃ rest, input = text ++ rest ∧ (endsHere children → rest = []) ∧
        d = (descend children rest).cons (.literal role text) := by
  rw [take?]
  cases hfront : text.isPrefixOf? input with
  | none =>
    refine iff_of_false nofun ?_
    rintro ⟨rest, rfl, _⟩
    exact Text.isPrefixOf?_eq_none_iff.mp hfront (List.prefix_append _ _)
  | some rest =>
    obtain rfl := Text.isPrefixOf?_eq_some_iff.mp hfront
    simp only [Option.ite_none_left_eq_some, Option.some.injEq, not_and, ne_eq, not_not,
      List.append_cancel_left_eq, exists_eq_left', eq_comm (a := d)]

theorem take?_slot_eq_some_iff :
    (mk (.slot written) children).take? last input = some d ↔
      ∃ value below, boundedBy? children input = some (value, below) ∧
        (value = [] → last) ∧ d = below.cons (.filled written value) := by
  rw [take?]
  cases hbounded : boundedBy? children input with
  | none => simp
  | some found =>
    obtain ⟨value, below⟩ := found
    simp [eq_comm (a := d)]

/-- A value is bounded by the first child that can bound it. -/
theorem exists_bound?_of_boundedBy? {found : Text × Descent}
    (h : boundedBy? trees input = some found) :
    ∃ before n after, trees = before ++ n :: after ∧ (∀ m ∈ before, m.bound? input = none) ∧
      n.bound? input = some found := by
  rw [boundedBy?_eq_findSome?] at h
  obtain ⟨before, n, after, hsplit, hn, hbefore⟩ := List.findSome?_eq_some_iff.mp h
  exact ⟨before, n, after, hsplit, hbefore, hn⟩

theorem bound?_finish_eq_some_iff :
    (mk (.finish name) children).bound? input = some (value, d) ↔
      value = input ∧ d = .arrival (.finish name) := by
  rw [bound?, Option.some.injEq, Prod.mk.injEq, eq_comm (a := value), eq_comm (a := d)]

theorem bound?_literal_eq_some_iff :
    (mk (.literal role mark) children).bound? input = some (value, d) ↔
      ∃ rest, input = value ++ (mark ++ rest) ∧ Text.FirstAfter mark value ∧
        d = (descend children rest).cons (.literal role mark) := by
  rw [bound?]
  constructor
  · intro h
    split at h
    · rename_i found rest hcut
      obtain ⟨rfl, rfl⟩ := Prod.mk.inj (Option.some.inj h)
      obtain ⟨rfl, hfirst⟩ := Text.cutAt?_eq_some_iff.mp hcut
      exact ⟨rest, List.append_assoc _ _ _, hfirst, rfl⟩
    · cases h
  · rintro ⟨rest, rfl, hfirst, rfl⟩
    rw [← List.append_assoc, Text.cutAt?_of_firstAfter rest hfirst]

theorem bound?_literal_isSome_iff :
    ((mk (.literal role mark) children).bound? input).isSome ↔ mark <:+: input := by
  rw [← Text.cutAt?_isSome_iff, bound?]
  cases Text.cutAt? mark input <;> simp

end Node

open Segment Node

/-- Resolving starts at the start, and what it finds is decided by a descent from the
level behind it. -/
theorem Catalog.Registered.exists_level {c : Catalog} {ts : List Template} (h : c.Registered ts) :
    ∃ children, Level (ts.map Template.row) [.start] children ∧ ∀ input, (c.resolve input).1 =
      if (descend children input).arrived then
        some (.counted (.start :: (descend children input).taken))
      else none := by
  have hrep := h.sound.represents
  have hlevel := hrep.level h.ranked
  have hresolve : ∀ input, (c.resolve input).1 =
      if (c.trie.descend input).arrived then some (.counted (c.trie.descend input).taken)
      else none := by
    intro input
    have hiff : (c.trie.descend input).complete ↔ (c.trie.descend input).arrived :=
      ⟨Trie.arrived_of_complete, fun ha => (hrep.descend_spec ha).1⟩
    simp only [Catalog.resolve, Trie.resolve?, hiff]
  rcases hrep.root with hnil | ⟨children, hroot⟩
  · refine ⟨[], ⟨hlevel.isRow, fun q => ?_, properForest_nil, rankedForest_nil⟩, fun input => ?_⟩
    · have hpath := hlevel.paths (.start :: q)
      rw [hnil] at hpath
      refine iff_of_false List.not_mem_nil fun hq => ?_
      cases hpath.mpr ⟨by simp, hq.2⟩
    · have hstuck : c.trie.descend input = .stuck := by rw [Trie.descend, hnil, descend]
      rw [hresolve, hstuck]
      rfl
  · refine ⟨children, hlevel.below (n := .mk .start children) (by simp [hroot]), fun input => ?_⟩
    have hstart : c.trie.descend input = (descend children input).cons .start := by
      rw [Trie.descend, hroot, descend_start]
    rw [hresolve, hstart]
    rfl

end RouteTemplates
