import RouteTemplates.Proofs.Scratch.Accounting
import RouteTemplates.Proofs.Trie.Contents

/-!
# Registering what is there

A template is registered under its row, so a template with a row that was given before
finds each of its segments in place.  No node is made then, no level is ranked, and the
longest row and the room foreseen for a descent are as long as they were.  What an
input was resolved to has such a row.  A text with a defect does not get as far as the
trie.

In an arena the same holds of the cells, so the places by which they are known stay.
-/

namespace RouteTemplates

theorem BufferPool.foresee_eq_self {p : BufferPool} {n : Nat} (h : min n p.ceiling ≤ p.initial) :
    p.foresee n = p := by
  rw [BufferPool.foresee, Nat.max_eq_left h]

theorem length_le_longestOf {rows : List (List Segment)} {row : List Segment} (h : row ∈ rows) :
    row.length ≤ longestOf rows := by
  rw [longestOf, List.foldl_max]
  have hle : row.length ≤ (rows.map List.length).max?.getD 0 :=
    List.le_max?_getD_of_mem (List.mem_map_of_mem h)
  exact Nat.le_trans hle (Nat.le_max_right _ _)

namespace Trie

theorem insert_unfilled (t : Trie) (template : Template) :
    t.insert template.unfilled = t.insert template := by
  rw [insert, insert, Template.unfilled_unfilled]

theorem Represents.holds_of_mem {t : Trie} {rows : List (List Segment)} (h : t.Represents rows)
    {row : List Segment} (hrow : row ∈ rows) : Node.holds row t.roots := by
  rw [h.forest.holds_iff, h.mem_paths]
  by_cases hne : row = []
  · exact .inl hne
  · exact .inr ⟨hne, row, hrow, List.prefix_refl row⟩

theorem Represents.insert_eq_self {t : Trie} {rows : List (List Segment)} (h : t.Represents rows)
    {template : Template} (hrow : template.row ∈ rows) : t.insert template = t := by
  have hlength : template.row.length ≤ t.longest := by
    rw [h.longest_eq]
    exact length_le_longestOf hrow
  show (if Node.holds template.row t.roots then
    { t with longest := max t.longest template.row.length } else _) = t
  rw [if_pos (h.holds_of_mem hrow), Nat.max_eq_left hlength]

end Trie

theorem Arena.insert_unfilled (a : Arena) (template : Template) :
    a.insert template.unfilled = a.insert template := by
  rw [Arena.insert, Arena.insert, Template.unfilled_unfilled]

namespace Catalog

theorem insert_unfilled (c : Catalog) (t : Template) : c.insert t.unfilled = c.insert t := by
  rw [insert, insert, Trie.insert_unfilled]

theorem insert_eq_self_of_trie {c : Catalog} {t : Template} (htrie : c.trie.insert t = c.trie)
    (hroom : c.scratch.steps.initial = min c.trie.longest c.scratch.steps.ceiling) :
    c.insert t = c := by
  have hsteps : c.scratch.steps.foresee c.trie.longest = c.scratch.steps :=
    BufferPool.foresee_eq_self (Nat.le_of_eq hroom.symm)
  rw [insert, htrie, hsteps]

/-- Registering the template changes nothing in the catalog, and nothing in an arena
that was given the same templates. -/
structure AddsNothing (c : Catalog) (ts : List Template) (t : Template) : Prop where
  catalog : c.insert t = c
  arena : (Arena.ofTemplates ts).insert t = Arena.ofTemplates ts

theorem AddsNothing.unfilled {c : Catalog} {ts : List Template} {t : Template}
    (h : c.AddsNothing ts t) : c.AddsNothing ts t.unfilled where
  catalog := by rw [insert_unfilled, h.catalog]
  arena := by rw [Arena.insert_unfilled, h.arena]

theorem Registered.addsNothing {c : Catalog} {ts : List Template} (h : c.Registered ts)
    {t : Template} (ht : t.row ∈ ts.map Template.row) : c.AddsNothing ts t where
  catalog := insert_eq_self_of_trie (h.sound.represents.insert_eq_self ht) h.initial_eq
  arena := h.arena_holds.insert_eq_self (h.sound.represents.holds_of_mem ht)

theorem add_of_compile {c : Catalog} {name text : Text} {t : Template}
    (h : Template.compile c.delimiters name text = .ok t) :
    c.add name text = .ok (t, c.insert t) := by
  rw [add, h]
  rfl

theorem add_of_defect {c : Catalog} {name text : Text} {defect : Defect}
    (h : Template.compile c.delimiters name text = .error defect) :
    c.add name text = .error defect := by
  rw [add, h]
  rfl

end Catalog

/-- After any history, a template with a registered row adds nothing, filled or not, and
nor does a text that compiles to one.  What an input is resolved to has a registered
row, so to register it adds nothing to the catalog that the lookup leaves.  A text with
a defect leaves the catalog as it is.  Elsewhere a match is added as the template it
came from. -/
theorem Catalog.Registered.insert_registered {c : Catalog} {ts : List Template}
    (h : c.Registered ts) :
    (∀ t : Template, t.row ∈ ts.map Template.row →
      c.AddsNothing ts t ∧ c.AddsNothing ts t.unfilled ∧
        ∀ name text, Template.compile c.delimiters name text = .ok t →
          c.add name text = .ok (t, c) ∧ c.afterAdd name text = c) ∧
    (∀ input found, (c.resolve input).1 = some found →
      c.AddsNothing ts found ∧ (c.resolve input).2.AddsNothing ts found ∧
        (c.resolve input).2.AddsNothing ts found.unfilled) ∧
    (∀ name text defect, Template.compile c.delimiters name text = .error defect →
      c.add name text = .error defect ∧ c.afterAdd name text = c) ∧
    ∀ (other : Catalog) (us : List Template) (t : Template),
      other.insert t = other.insert t.unfilled ∧
        (Arena.ofTemplates us).insert t = (Arena.ofTemplates us).insert t.unfilled := by
  refine ⟨fun t ht => ?_, fun input found hf => ?_, fun name text defect hd => ?_,
    fun other us t => ?_⟩
  · have hnothing := h.addsNothing ht
    refine ⟨hnothing, hnothing.unfilled, fun name text hcompile => ?_⟩
    have hadd : c.add name text = .ok (t, c) := by
      rw [Catalog.add_of_compile hcompile, hnothing.catalog]
    exact ⟨hadd, by rw [Catalog.afterAdd, hadd]⟩
  · obtain ⟨_, hrow, _⟩ := h.sound.represents.route_of_resolve? hf
    have hafter := (Catalog.Registered.resolve input h).addsNothing hrow
    exact ⟨h.addsNothing hrow, hafter, hafter.unfilled⟩
  · have hadd := Catalog.add_of_defect hd
    exact ⟨hadd, by rw [Catalog.afterAdd, hadd]⟩
  · exact ⟨(other.insert_unfilled t).symm, (Arena.insert_unfilled _ t).symm⟩

/-- A page of a user is registered as the template of pages that it came from, which is
there.  So is the template when it is given as a text, and the second text has slots
side by side. -/
theorem Catalog.Registered.insert_registered_of_page :
    let users : Template := .counted
      [.start, .literal .plain ['/'], .slot ['<', 'u', '>'], .finish none]
    let pages : Template := .counted
      [.start, .literal .plain ['/'], .slot ['<', 'u', '>'], .literal .plain ['/'],
        .slot ['<', 'p', '>'], .finish (some ['p'])]
    let found : Template := .counted
      [.start, .literal .plain ['/'], .filled ['<', 'u', '>'] ['é'], .literal .plain ['/'],
        .filled ['<', 'p', '>'] ['a', '/'], .finish (some ['p'])]
    let c := ((Catalog.new ⟨'<', '>', by decide⟩ .standard).insert users).insert pages
    (c.resolve ['/', 'é', '/', 'a', '/']).1 = some found ∧
      c.AddsNothing [users, pages] found ∧
      (c.resolve ['/', 'é', '/', 'a', '/']).2.AddsNothing [users, pages] found ∧
      c.afterAdd ['p'] ['/', '<', 'u', '>', '/', '<', 'p', '>'] = c ∧
      c.afterAdd ['p'] ['/', '<', 'u', '>', '<', 'p', '>'] = c := by
  intro users pages found c
  have husers : Template.ofSegments users.segments = .ok users := rfl
  have hpages : Template.ofSegments pages.segments = .ok pages := rfl
  have hregistered : c.Registered [users, pages] :=
    .insert (.insert (.new _ _) (.ofSegments husers)) (.ofSegments hpages)
  obtain ⟨hrow, hresolved, hdefect, _⟩ := hregistered.insert_registered
  have hf : (c.resolve ['/', 'é', '/', 'a', '/']).1 = some found := rfl
  have hcompile : Template.compile c.delimiters ['p']
      ['/', '<', 'u', '>', '/', '<', 'p', '>'] = .ok pages := rfl
  have hadjacent : Template.compile c.delimiters ['p']
      ['/', '<', 'u', '>', '<', 'p', '>'] = .error (.adjacentSlots 4) := rfl
  obtain ⟨hbefore, hafter, _⟩ := hresolved _ found hf
  obtain ⟨_, _, htext⟩ := hrow pages (List.mem_map_of_mem (by simp))
  exact ⟨hf, hbefore, hafter, (htext _ _ hcompile).2, (hdefect _ _ _ hadjacent).2⟩

end RouteTemplates
