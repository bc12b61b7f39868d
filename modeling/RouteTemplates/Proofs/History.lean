import RouteTemplates.Catalog
import RouteTemplates.Proofs.Trie.Ranked
import RouteTemplates.Proofs.Trie.Route

/-!
# Histories

The templates the library can make and the catalogs it can fill depend on each
other: a template can be what a catalog resolved an input to, and a catalog can
be given any template there is.  Both are described here at once, a catalog
together with the templates that were registered in it, in their order.

The theorem on which most others rest is `Registered.sound`: after any history the
trie represents the rows of the registered templates.
-/

namespace RouteTemplates

open Segment

mutual

/-- The templates that the operations of the library can make. -/
inductive Template.Obtainable : Template → Prop
  | empty : Template.Obtainable .empty
  | compile {d : Delimiters} {name text : Text} {t : Template} :
      Template.compile d name text = .ok t → Template.Obtainable t
  | ofSegments {segments : List Segment} {t : Template} :
      Template.ofSegments segments = .ok t → Template.Obtainable t
  | unfilled {t : Template} : Template.Obtainable t → Template.Obtainable t.unfilled
  | splitOn {t : Template} (separator : Text) :
      Template.Obtainable t → Template.Obtainable (t.splitOn separator)
  | resolve {c : Catalog} {ts : List Template} {input : Text} {t : Template} :
      Catalog.Registered c ts → (c.resolve input).1 = some t → Template.Obtainable t

/-- The catalog comes about by registering the templates in turn, with lookups in
between.  Compiling a text with a defect registers nothing. -/
inductive Catalog.Registered : Catalog → List Template → Prop
  | new (d : Delimiters) (ceilings : Ceilings) : Catalog.Registered (.new d ceilings) []
  | add {c c' : Catalog} {ts : List Template} {name text : Text} {t : Template} :
      Catalog.Registered c ts → c.add name text = .ok (t, c') →
        Catalog.Registered c' (ts ++ [t])
  | insert {c : Catalog} {ts : List Template} {t : Template} :
      Catalog.Registered c ts → Template.Obtainable t →
        Catalog.Registered (c.insert t) (ts ++ [t])
  | resolve {c : Catalog} {ts : List Template} (input : Text) :
      Catalog.Registered c ts → Catalog.Registered (c.resolve input).2 ts
  | lookup {c : Catalog} {ts : List Template} (t : Template) (input : Text) :
      Catalog.Registered c ts → Catalog.Registered (c.lookup t input).2 ts

end

namespace Trie

/-- A descent that arrives in the trie of some rows is complete, and its row, the
captured values taken out, is one of them. -/
theorem Represents.descend_spec {t : Trie} {rows : List (List Segment)} (h : t.Represents rows)
    {input : Text} (ha : (t.descend input).arrived) :
    (t.descend input).complete ∧ (t.descend input).taken.map Segment.unfilled ∈ rows := by
  have hroute : Node.Route t.roots input (t.descend input).taken := Node.route_of_descend ha
  have hmem := (h.mem_paths_iff_mem (ends_map_unfilled.mpr hroute.ends)).mp
    hroute.unfilled_mem_pathsOf
  refine ⟨?_, hmem⟩
  have hrow := (h.isRow _ hmem).resolve_left (by simpa using hroute.taken_ne_nil)
  obtain ⟨more, htaken, _⟩ := hrow.exists_of_map_unfilled
  obtain ⟨last, hlast, hfinish⟩ := hroute.ends
  have hhead : (t.descend input).taken.head? = some .start := by rw [htaken, List.head?_cons]
  rw [Descent.complete, hhead, Option.mem_def.mp hlast, ha]
  simpa using hfinish

theorem arrived_of_complete {d : Descent} (h : d.complete) : d.arrived := by
  rw [Descent.complete, Bool.and_eq_true, Bool.and_eq_true] at h
  exact h.1.1

theorem Represents.resolve?_isSome_iff {t : Trie} {rows : List (List Segment)}
    (h : t.Represents rows) {input : Text} :
    (t.resolve? input).isSome ↔ (t.descend input).arrived := by
  rw [Trie.resolve?, Option.isSome_ite]
  exact ⟨arrived_of_complete, fun ha => (h.descend_spec ha).1⟩

/-- What resolving finds is a row that was given, filled along a route. -/
theorem Represents.route_of_resolve? {t : Trie} {rows : List (List Segment)}
    (h : t.Represents rows) {input : Text} {found : Template} (hf : t.resolve? input = some found) :
    Node.Route t.roots input found.segments ∧ found.row ∈ rows ∧
      found.slotCount = found.segments.countP isSlot := by
  rw [Trie.resolve?] at hf
  obtain ⟨hcomplete, rfl⟩ := Option.ite_none_right_eq_some.mp hf |>.imp_right Option.some.inj
  have ha := arrived_of_complete hcomplete
  exact ⟨Node.route_of_descend ha, (h.descend_spec ha).2, rfl⟩

end Trie

/-! ## What every history keeps -/

def Template.Fit (t : Template) : Prop := t = .empty ∨ t.WellFormed

theorem Template.Fit.isRow {t : Template} (h : t.Fit) : t.row = [] ∨ IsRow t.row := by
  rcases h with rfl | h
  · exact .inl rfl
  · exact .inr h.isRow

/-- What a resolved template lacks of being well-formed is settled by the row it
was found under. -/
theorem Template.wellFormed_of_isRow {t : Template} (h : IsRow t.row)
    (hcount : t.slotCount = t.segments.countP isSlot) : t.WellFormed := by
  obtain ⟨more, hseg, htail⟩ := IsRow.exists_of_map_unfilled h
  exact ⟨⟨more, hseg, htail⟩, hcount⟩

structure Catalog.Sound (c : Catalog) (ts : List Template) : Prop where
  represents : c.trie.Represents (ts.map Template.row)
  fit : ∀ t ∈ ts, t.Fit

theorem Catalog.add_eq_ok {c c' : Catalog} {name text : Text} {t : Template}
    (h : c.add name text = .ok (t, c')) :
    Template.compile c.delimiters name text = .ok t ∧ c' = c.insert t := by
  rw [Catalog.add] at h
  cases hcompile : Template.compile c.delimiters name text with
  | error e => simp [hcompile, Except.map] at h
  | ok u =>
    simp only [hcompile, Except.map, Except.ok.injEq, Prod.mk.injEq] at h
    obtain ⟨rfl, rfl⟩ := h
    exact ⟨rfl, rfl⟩

theorem Catalog.Sound.insert {c : Catalog} {ts : List Template} (h : c.Sound ts) {t : Template}
    (ht : t.Fit) : (c.insert t).Sound (ts ++ [t]) := by
  constructor
  · rw [List.map_append]
    exact h.represents.insert ht.isRow
  · intro u hu
    rcases List.mem_append.mp hu with hu | hu
    · exact h.fit u hu
    · rw [List.mem_singleton.mp hu]
      exact ht

theorem Catalog.Sound.fit_of_resolve? {c : Catalog} {ts : List Template} (h : c.Sound ts)
    {input : Text} {found : Template} (hf : c.trie.resolve? input = some found) : found.Fit := by
  obtain ⟨hroute, hmem, hcount⟩ := h.represents.route_of_resolve? hf
  have hrow := (h.represents.isRow _ hmem).resolve_left
    (by simpa [Template.row, Template.unfilled] using hroute.taken_ne_nil)
  exact .inr (Template.wellFormed_of_isRow hrow hcount)

mutual

theorem Template.Obtainable.fit : ∀ {t : Template}, t.Obtainable → t.Fit
  | _, .empty => .inl rfl
  | _, .compile h => .inr (Template.wellFormed_of_compile h)
  | _, .ofSegments h => .inr (Template.wellFormed_of_ofSegments h)
  | _, .unfilled h => by
    rcases h.fit with rfl | hw
    · exact .inl rfl
    · exact .inr hw.unfilled
  | _, .splitOn separator h => by
    rcases h.fit with rfl | hw
    · left
      unfold Template.splitOn
      split <;> rfl
    · exact .inr (hw.splitOn separator)
  | _, .resolve h hf => h.sound.fit_of_resolve? hf

/-- The invariant of every history. -/
theorem Catalog.Registered.sound : ∀ {c : Catalog} {ts : List Template},
    c.Registered ts → c.Sound ts
  | _, _, .new _ _ => ⟨Trie.represents_empty, by simp⟩
  | _, _, .add h ha => by
    obtain ⟨hcompile, rfl⟩ := Catalog.add_eq_ok ha
    exact h.sound.insert (.inr (Template.wellFormed_of_compile hcompile))
  | _, _, .insert h ht => h.sound.insert ht.fit
  | _, _, .resolve _ h => ⟨h.sound.represents, h.sound.fit⟩
  | _, _, .lookup _ _ h => ⟨h.sound.represents, h.sound.fit⟩

end

/-- What each operation of the library keeps holds of all templates. -/
theorem Template.Obtainable.induction {motive : Template → Prop} (empty : motive .empty)
    (compile : ∀ {d name text t}, Template.compile d name text = .ok t → motive t)
    (ofSegments : ∀ {segments t}, Template.ofSegments segments = .ok t → motive t)
    (unfilled : ∀ {t}, motive t → motive t.unfilled)
    (splitOn : ∀ {t} separator, motive t → motive (t.splitOn separator))
    (resolve : ∀ {c ts input t}, Catalog.Registered c ts → (c.resolve input).1 = some t →
      motive t) :
    ∀ {t : Template}, t.Obtainable → motive t
  | _, .empty => empty
  | _, .compile h => compile h
  | _, .ofSegments h => ofSegments h
  | _, .unfilled h => unfilled (h.induction empty compile ofSegments unfilled splitOn resolve)
  | _, .splitOn separator h =>
    splitOn separator (h.induction empty compile ofSegments unfilled splitOn resolve)
  | _, .resolve h hf => resolve h hf

/-- What each operation of a catalog keeps holds of all histories. -/
theorem Catalog.Registered.induction {motive : Catalog → List Template → Prop}
    (new : ∀ d ceilings, motive (.new d ceilings) [])
    (add : ∀ {c c' ts name text t}, motive c ts → c.add name text = .ok (t, c') →
      motive c' (ts ++ [t]))
    (insert : ∀ {c ts t}, motive c ts → t.Obtainable → motive (c.insert t) (ts ++ [t]))
    (resolve : ∀ {c ts} input, motive c ts → motive (c.resolve input).2 ts)
    (lookup : ∀ {c ts} t input, motive c ts → motive (c.lookup t input).2 ts) :
    ∀ {c : Catalog} {ts : List Template}, c.Registered ts → motive c ts
  | _, _, .new d ceilings => new d ceilings
  | _, _, .add h ha => add (h.induction new add insert resolve lookup) ha
  | _, _, .insert h ht => insert (h.induction new add insert resolve lookup) ht
  | _, _, .resolve input h => resolve input (h.induction new add insert resolve lookup)
  | _, _, .lookup t input h => lookup t input (h.induction new add insert resolve lookup)

theorem Catalog.Registered.trie_eq : ∀ {c : Catalog} {ts : List Template},
    c.Registered ts → c.trie = ts.foldl Trie.insert .empty
  | _, _, .new _ _ => rfl
  | _, _, .add h ha => by
    obtain ⟨_, rfl⟩ := Catalog.add_eq_ok ha
    rw [List.foldl_concat, ← h.trie_eq]
    rfl
  | _, _, .insert h _ => by
    rw [List.foldl_concat, ← h.trie_eq]
    rfl
  | _, _, .resolve _ h => h.trie_eq
  | _, _, .lookup _ _ h => h.trie_eq

theorem Catalog.Registered.ranked {c : Catalog} {ts : List Template} (h : c.Registered ts) :
    Node.RankedForest c.trie.roots := by
  rw [h.trie_eq]
  exact Trie.rankedForest_foldl ts

theorem Catalog.registered_foldl (d : Delimiters) (ceilings : Ceilings) {ts : List Template}
    (h : ∀ t ∈ ts, t.Obtainable) :
    (ts.foldl Catalog.insert (.new d ceilings)).Registered ts := by
  induction ts using List.reverseRecOn with
  | nil => exact .new d ceilings
  | append_singleton ts t ih =>
    obtain ⟨hts, ht⟩ := List.forall_mem_append.mp h
    rw [List.foldl_concat]
    exact .insert (ih hts) (ht t (List.mem_singleton_self t))

/-- The same for templates assembled from their segments. -/
theorem Catalog.registered_foldl_ofSegments (d : Delimiters) (ceilings : Ceilings)
    {ts : List Template} (h : ∀ t ∈ ts, Template.ofSegments t.segments = .ok t) :
    (ts.foldl Catalog.insert (.new d ceilings)).Registered ts :=
  registered_foldl d ceilings fun t ht => .ofSegments (h t ht)

end RouteTemplates
