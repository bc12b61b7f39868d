import RouteTemplates.Proofs.Template.Instance
import RouteTemplates.Proofs.Trie.Paths
import RouteTemplates.Trie.Resolution

/-!
# Routes through a trie

A route is a way down a trie that takes the whole of an input, and says nothing of
the order in which alternatives are tried.  A descent that arrives has followed
one; this is all that the soundness of resolving needs, so what is proved of
routes stays when the order of alternatives changes.
-/

namespace RouteTemplates
namespace Node

open Segment

/-- The segments taken, slots filled, on a way from the roots to an end. -/
inductive Route : List Node → Text → List Segment → Prop
  | finish {trees below : List Node} {name : Option Text} :
      mk (.finish name) below ∈ trees → Route trees [] [.finish name]
  | start {trees below : List Node} {input : Text} {taken : List Segment} :
      mk .start below ∈ trees → Route below input taken → Route trees input (.start :: taken)
  | literal {trees below : List Node} {role : LiteralRole} {text rest : Text}
      {taken : List Segment} :
      mk (.literal role text) below ∈ trees → Route below rest taken →
        Route trees (text ++ rest) (.literal role text :: taken)
  | slotFinish {trees children below : List Node} {written : Text} {name : Option Text}
      {input : Text} :
      mk (.slot written) children ∈ trees → mk (.finish name) below ∈ children →
        Route trees input [.filled written input, .finish name]
  | slotLiteral {trees children below : List Node} {written : Text} {role : LiteralRole}
      {mark value rest : Text} {taken : List Segment} :
      mk (.slot written) children ∈ trees → mk (.literal role mark) below ∈ children →
        Text.FirstAfter mark value → Route below rest taken →
          Route trees (value ++ (mark ++ rest))
            (.filled written value :: .literal role mark :: taken)

theorem Route.mono {trees trees' : List Node} {input : Text} {taken : List Segment}
    (h : Route trees input taken) (hsub : trees ⊆ trees') : Route trees' input taken := by
  cases h with
  | finish hn => exact .finish (hsub hn)
  | start hn hr => exact .start (hsub hn) hr
  | literal hn hr => exact .literal (hsub hn) hr
  | slotFinish hn hb => exact .slotFinish (hsub hn) hb
  | slotLiteral hn hb hf hr => exact .slotLiteral (hsub hn) hb hf hr

/-! ## Descents follow routes -/

mutual

theorem route_of_descend : ∀ {trees : List Node} {input : Text},
    (descend trees input).arrived → Route trees input (descend trees input).taken
  | [], _, h => by cases h
  | n :: more, input, h => by
    rw [descend] at h ⊢
    split at h
    · rename_i d htake
      simpa [htake] using (route_of_take? htake h).mono (by simp)
    · rename_i htake
      simpa [htake] using (route_of_descend h).mono (List.subset_cons_self n more)

theorem route_of_take? : ∀ {n : Node} {last : Bool} {input : Text} {d : Descent},
    n.take? last input = some d → d.arrived → Route [n] input d.taken
  | mk .start children, _, input, d, h, ha => by
    obtain rfl := Option.some.inj h
    exact .start (List.mem_singleton_self _) (route_of_descend ha)
  | mk (.finish name) children, _, input, d, h, _ => by
    rw [take?] at h
    split at h
    · rename_i hempty
      obtain rfl := Option.some.inj h
      subst hempty
      exact .finish (List.mem_singleton_self _)
    · cases h
  | mk (.literal role text) children, _, input, d, h, ha => by
    rw [take?] at h
    split at h
    · rename_i rest hrest
      split at h
      · cases h
      · obtain rfl := Option.some.inj h
        rw [Text.isPrefixOf?_eq_some_iff.mp hrest]
        exact .literal (List.mem_singleton_self _) (route_of_descend ha)
    · cases h
  | mk (.slot written) children, _, input, d, h, ha => by
    rw [take?] at h
    split at h
    · rename_i value d' hbounded
      split at h
      · cases h
      · obtain rfl := Option.some.inj h
        exact route_of_boundedBy? hbounded ha (List.mem_singleton_self _) (List.Subset.refl _)
    · cases h
  | mk (.filled _ _) children, _, input, d, h, _ => by cases h

theorem route_of_boundedBy? : ∀ {siblings : List Node} {input value : Text} {d : Descent},
    boundedBy? siblings input = some (value, d) → d.arrived →
      ∀ {trees children : List Node} {written : Text},
        mk (.slot written) children ∈ trees → siblings ⊆ children →
          Route trees input (.filled written value :: d.taken)
  | [], _, _, _, h, _, _, _, _, _, _ => by cases h
  | n :: more, input, value, d, h, ha, trees, children, written, hslot, hsub => by
    obtain ⟨hn, hmore⟩ := List.cons_subset.mp hsub
    rw [boundedBy?] at h
    split at h
    · rename_i found hbound
      obtain rfl := Option.some.inj h
      exact route_of_bound? hbound ha hslot hn
    · exact route_of_boundedBy? h ha hslot hmore

theorem route_of_bound? : ∀ {n : Node} {input value : Text} {d : Descent},
    n.bound? input = some (value, d) → d.arrived →
      ∀ {trees children : List Node} {written : Text},
        mk (.slot written) children ∈ trees → n ∈ children →
          Route trees input (.filled written value :: d.taken)
  | mk (.literal role mark) below, input, value, d, h, ha, trees, children, written, hslot, hn => by
    rw [bound?] at h
    split at h
    · rename_i found rest hcut
      obtain ⟨rfl, rfl⟩ := Prod.mk.inj (Option.some.inj h)
      obtain ⟨rfl, hfirst⟩ := Text.cutAt?_eq_some_iff.mp hcut
      rw [List.append_assoc]
      exact .slotLiteral hslot hn hfirst (route_of_descend ha)
    · cases h
  | mk (.finish name) below, input, value, d, h, _, trees, children, written, hslot, hn => by
    obtain ⟨rfl, rfl⟩ := Prod.mk.inj (Option.some.inj h)
    exact .slotFinish hslot hn
  | mk .start _, _, _, _, h, _, _, _, _, _, _ => by cases h
  | mk (.slot _) _, _, _, _, h, _, _, _, _, _, _ => by cases h
  | mk (.filled _ _) _, _, _, _, h, _, _, _, _, _, _ => by cases h

end

/-! ## What a route takes -/

theorem Route.unfilled_mem_pathsOf {trees : List Node} {input : Text} {taken : List Segment}
    (h : Route trees input taken) : taken.map Segment.unfilled ∈ pathsOf trees := by
  induction h with
  | finish hn => exact mem_pathsOf.mpr ⟨_, hn, .inl rfl⟩
  | start hn _ ih => exact mem_pathsOf.mpr ⟨_, hn, .inr ⟨_, ih, rfl⟩⟩
  | literal hn _ ih => exact mem_pathsOf.mpr ⟨_, hn, .inr ⟨_, ih, rfl⟩⟩
  | slotFinish hn hb =>
    exact mem_pathsOf.mpr ⟨_, hn, .inr ⟨_, mem_pathsOf.mpr ⟨_, hb, .inl rfl⟩, rfl⟩⟩
  | slotLiteral hn hb _ _ ih =>
    exact mem_pathsOf.mpr ⟨_, hn, .inr ⟨_, mem_pathsOf.mpr ⟨_, hb, .inr ⟨_, ih, rfl⟩⟩, rfl⟩⟩

theorem Route.taken_ne_nil {trees : List Node} {input : Text} {taken : List Segment}
    (h : Route trees input taken) : taken ≠ [] := by
  cases h <;> simp

theorem Route.ends {trees : List Node} {input : Text} {taken : List Segment}
    (h : Route trees input taken) : Ends taken := by
  induction h with
  | finish => exact ends_singleton.mpr rfl
  | start _ hr ih => exact (ends_cons hr.taken_ne_nil).mpr ih
  | literal _ hr ih => exact (ends_cons hr.taken_ne_nil).mpr ih
  | slotFinish => exact (ends_cons (by simp)).mpr (ends_singleton.mpr rfl)
  | slotLiteral _ _ _ hr ih => exact (ends_cons (by simp)).mpr ((ends_cons hr.taken_ne_nil).mpr ih)

theorem Route.flatMap_matched {trees : List Node} {input : Text} {taken : List Segment}
    (h : Route trees input taken) : taken.flatMap matched = input := by
  induction h with
  | finish => rfl
  | start _ _ ih => simpa [matched] using ih
  | literal _ _ ih => simp [matched, ih]
  | slotFinish => simp [matched]
  | slotLiteral _ _ _ _ ih => simp [matched, ih]

theorem Route.length_captured {trees : List Node} {input : Text} {taken : List Segment}
    (h : Route trees input taken) : (captured taken).length = taken.countP isSlot := by
  induction h with
  | finish => rfl
  | start _ _ ih => exact ih
  | literal _ _ ih => exact ih
  | slotFinish => rfl
  | slotLiteral _ _ _ _ ih =>
    rw [List.countP_cons_of_pos rfl]
    exact congrArg (· + 1) ih

/-- The values a route has captured are read again from its own row. -/
theorem Route.extractFrom_taken {trees : List Node} {input : Text} {taken : List Segment}
    (h : Route trees input taken) :
    Template.extractFrom taken input =
      ⟨List.zipWith Binding.mk (slotNames taken) (captured taken), true⟩ := by
  induction h with
  | finish => rfl
  | start _ _ ih => exact ih
  | literal _ _ ih => rw [Template.extractFrom_literal, ih]; rfl
  | @slotFinish _ _ _ written name input _ _ =>
    have hread := Template.extractFrom_filled written input [.finish name] []
    rw [List.append_nil] at hread
    rw [hread]
    rfl
  | slotLiteral _ _ _ _ ih =>
    rw [Template.extractFrom_filled, Template.extractFrom_literal, ih]
    rfl

/-- The same values are read by the row before it was filled: each ends where the
literal that bounded it is first met. -/
theorem Route.extractFrom_unfilled {trees : List Node} {input : Text} {taken : List Segment}
    (h : Route trees input taken) :
    Template.extractFrom (taken.map Segment.unfilled) input =
      ⟨List.zipWith Binding.mk (slotNames taken) (captured taken), true⟩ := by
  induction h with
  | finish => rfl
  | start _ _ ih => exact ih
  | @literal _ _ role text rest taken _ _ ih =>
    have hread := Template.extractFrom_literal role text (taken.map Segment.unfilled) rest
    rw [ih] at hread
    exact hread
  | slotFinish => rfl
  | @slotLiteral _ _ _ written role mark value rest taken _ _ hfirst _ ih =>
    have hvalue : Template.slotValue? (.literal role mark :: taken.map Segment.unfilled)
        (value ++ (mark ++ rest)) = some (value, mark ++ rest) := by
      rw [← List.append_assoc, Template.slotValue?, Text.cutAt?_of_firstAfter rest hfirst,
        Option.map_some]
    simp only [List.map_cons, Segment.unfilled]
    rw [Template.extractFrom, hvalue]
    simp only [Template.extractFrom_literal, ih]
    rfl

theorem Route.lookup?_eq {trees : List Node} {input : Text} {found : Template}
    (h : Route trees input found.segments)
    (hcount : found.slotCount = found.segments.countP isSlot) :
    let bs := List.zipWith Binding.mk found.slotNames (captured found.segments)
    found.lookup? input = some bs ∧ found.unfilled.lookup? input = some bs := by
  intro bs
  have hlength : bs.length = found.slotCount := by
    rw [List.length_zipWith, Template.slotNames, length_slotNames, h.length_captured, hcount,
      Nat.min_self]
  constructor
  · exact (Template.lookup?_eq_some_iff h.taken_ne_nil).mpr ⟨h.extractFrom_taken, hlength⟩
  · refine (Template.lookup?_eq_some_iff ?_).mpr ⟨h.extractFrom_unfilled, hlength⟩
    simpa [Template.unfilled] using h.taken_ne_nil

end Node
end RouteTemplates
