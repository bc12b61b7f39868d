import RouteTemplates.Proofs.Scratch.Accounting
import RouteTemplates.Scratch.Shelf

/-!
# Lookups with lent buffers

Reading values with a buffer from a shelf gives what reading them without one gives, since
buffers are cleared before they are put back, and a lent buffer is empty whatever was read
with it before.  Without the items a shelf is a pool, and each lookup uses it for as many
items as values were read, also by a lookup that fails half-way.

Nothing is ever foreseen for these buffers, so they grow by pushing alone.  What is idle
after a lookup is then decided by that lookup, although the buffer it was given had
whatever room earlier ones had left in it.
-/

namespace RouteTemplates

variable {α : Type}

/-! ## Items and sizes -/

namespace Holding

variable {h : Holding α}

theorem sizes_reserve (h : Holding α) (n : Nat) : (h.reserve n).sizes = h.sizes.reserve n := by
  have hlength : (h.sizes.reserve n).length = h.items.length := Buffer.length_reserve _ _
  show Buffer.mk (h.sizes.reserve n).capacity h.items.length = _
  rw [← hlength]

theorem sizes_push (h : Holding α) (a : α) : (h.push a).sizes = h.sizes.push := by
  have hlength : h.sizes.push.length = (h.items ++ [a]).length := by
    rw [Buffer.length_push, List.length_append]
    rfl
  show Buffer.mk h.sizes.push.capacity (h.items ++ [a]).length = _
  rw [← hlength]

/-- Pushes the items one after the other. -/
def pushAll (h : Holding α) (items : List α) : Holding α := items.foldl push h

theorem items_pushAll (h : Holding α) (items : List α) :
    (h.pushAll items).items = h.items ++ items := by
  induction items generalizing h with
  | nil => exact (List.append_nil _).symm
  | cons a items ih =>
    show ((h.push a).pushAll items).items = h.items ++ a :: items
    rw [ih]
    exact List.append_assoc h.items [a] items

theorem sizes_pushAll (h : Holding α) (items : List α) :
    (h.pushAll items).sizes = h.sizes.pushMany items.length := by
  induction items generalizing h with
  | nil => rfl
  | cons a items ih =>
    show ((h.push a).pushAll items).sizes = h.sizes.push.pushMany items.length
    rw [ih, sizes_push]

end Holding

namespace Shelf

variable {s : Shelf α}

theorem sizes_lend (s : Shelf α) :
    s.lend.1.sizes = s.sizes.lend.1 ∧ s.lend.2.sizes = s.sizes.lend.2 := by
  obtain ⟨idle, initial, ceiling⟩ := s
  cases idle with
  | nil => exact ⟨Holding.sizes_reserve _ _, rfl⟩
  | cons h idle => exact ⟨Holding.sizes_reserve _ _, rfl⟩

theorem sizes_takeBack (s : Shelf α) (h : Holding α) :
    (s.takeBack h).sizes = s.sizes.takeBack h.sizes := by
  rw [takeBack, BufferPool.takeBack]
  show _ = if s.ceiling < h.capacity then _ else _
  split <;> rfl

/-- Nothing is left in the idle buffers. -/
def Cleared (s : Shelf α) : Prop := ∀ h ∈ s.idle, h.items = []

theorem cleared_withCeiling (ceiling : Nat) : (withCeiling ceiling : Shelf α).Cleared := by
  intro h hh
  cases hh

theorem Cleared.lend (h : s.Cleared) : s.lend.1.items = [] ∧ s.lend.2.Cleared := by
  obtain ⟨idle, initial, ceiling⟩ := s
  cases idle with
  | nil => exact ⟨rfl, h⟩
  | cons first idle =>
    exact ⟨h first List.mem_cons_self, fun b hb => h b (List.mem_cons_of_mem first hb)⟩

theorem Cleared.takeBack (h : s.Cleared) (b : Holding α) : (s.takeBack b).Cleared := by
  rw [Shelf.takeBack]
  split
  · exact h
  · intro other hother
    rcases List.mem_cons.mp hother with rfl | hidle
    · rfl
    · exact h other hidle

end Shelf

/-! ## One lookup -/

namespace Template

/-- What is pushed is what is read, also by an extraction that gets stuck. -/
theorem extractInto_eq (segments : List Segment) (input : Text) (h : Holding Binding) :
    extractInto segments input h =
      (h.pushAll (extractFrom segments input).bindings,
        (extractFrom segments input).complete) := by
  induction segments generalizing input h with
  | nil => rw [extractInto, extractFrom]; rfl
  | cons s more ih =>
    cases s with
    | start => rw [extractInto, extractFrom, ih]
    | finish name => rw [extractInto, extractFrom]; rfl
    | literal role text =>
      rw [extractInto, extractFrom]
      cases text.isPrefixOf? input with
      | some rest => exact ih rest h
      | none => rfl
    | slot written =>
      rw [extractInto, extractFrom]
      cases slotValue? more input with
      | some found => exact ih found.2 _
      | none => rfl
    | filled written value =>
      rw [extractInto, extractFrom]
      cases Text.takeBytes? (Text.byteSize value) input with
      | some found => exact ih found.2 _
      | none => rfl

theorem lookupIn_eq (t : Template) (s : Shelf Binding) (input : Text) :
    t.lookupIn s input =
      ((Extraction.mk (s.lend.1.items ++ (t.extraction input).bindings)
          (t.extraction input).complete).result? t.slotCount,
        s.lend.2.takeBack (s.lend.1.pushAll (t.extraction input).bindings)) := by
  have hfilled : (if t.segments = [] then (s.lend.1, false)
        else extractInto t.segments input s.lend.1) =
      (s.lend.1.pushAll (t.extraction input).bindings, (t.extraction input).complete) := by
    rw [extraction]
    split
    · rfl
    · exact extractInto_eq _ _ _
  rw [lookupIn]
  dsimp only
  rw [hfilled, Extraction.result?, Holding.items_pushAll]

variable {s : Shelf Binding}

theorem lookupIn_of_cleared (h : s.Cleared) (t : Template) (input : Text) :
    (t.lookupIn s input).1 = t.lookup? input := by
  rw [lookupIn_eq, h.lend.1, List.nil_append]
  rfl

theorem cleared_lookupIn (h : s.Cleared) (t : Template) (input : Text) :
    (t.lookupIn s input).2.Cleared := by
  rw [lookupIn_eq]
  exact h.lend.2.takeBack _

/-- Without the items, a lookup is a use of the pool. -/
theorem sizes_lookupIn (t : Template) (s : Shelf Binding) (input : Text) :
    (t.lookupIn s input).2.sizes = s.sizes.use (t.extraction input).bindings.length := by
  rw [lookupIn_eq]
  dsimp only
  rw [Shelf.sizes_takeBack, Holding.sizes_pushAll, s.sizes_lend.1, s.sizes_lend.2]
  rfl

/-- Reading the values first and using the pool for their number afterwards comes to the same
as reading them into the buffer that was lent. -/
theorem lookupWith_sizes (h : s.Cleared) (t : Template) (input : Text) :
    t.lookupWith s.sizes input = ((t.lookupIn s input).1, (t.lookupIn s input).2.sizes) := by
  rw [lookupIn_of_cleared h, sizes_lookupIn]
  rfl

end Template

/-! ## After any lookups -/

namespace Shelf

theorem after_concat (s : Shelf Binding) (calls : List (Template × Text))
    (call : Template × Text) :
    s.after (calls ++ [call]) = (call.1.lookupIn (s.after calls) call.2).2 := by
  rw [after, List.foldl_concat]
  rfl

variable {s : Shelf Binding} {calls : List (Template × Text)}

theorem Cleared.after (h : s.Cleared) : (s.after calls).Cleared := by
  induction calls using List.reverseRecOn with
  | nil => exact h
  | append_singleton calls call ih =>
    rw [after_concat]
    exact Template.cleared_lookupIn ih _ _

theorem staged_sizes_after (h : s.sizes.Staged) : (s.after calls).sizes.Staged := by
  induction calls using List.reverseRecOn with
  | nil => exact h
  | append_singleton calls call ih =>
    rw [after_concat, Template.sizes_lookupIn]
    exact ih.use _

theorem ceiling_sizes_after : (s.after calls).sizes.ceiling = s.sizes.ceiling := by
  induction calls using List.reverseRecOn with
  | nil => rfl
  | append_singleton calls call ih =>
    rw [after_concat, Template.sizes_lookupIn, BufferPool.ceiling_use, ih]

end Shelf

/-- What an operation looks up. -/
def Operation.lookup? : Operation → Option (Template × Text)
  | .lookup template input => some (template, input)
  | .add _ _ | .insert _ | .resolve _ => none

namespace Catalog

variable {c : Catalog}

/-- Only lookups use the buffers for values. -/
theorem values_perform {op : Operation} (hop : op.lookup? = none) :
    (c.perform op).scratch.values = c.scratch.values := by
  cases op with
  | add _ _ =>
    exact perform_of_registers (motive := fun c' => c'.scratch.values = c.scratch.values)
      (fun _ _ h => h) rfl rfl
  | insert _ => rfl
  | resolve _ => rfl
  | lookup _ _ => cases hop

/-- The pool for values that a catalog keeps is what its lookups make of a shelf. -/
theorem values_run {s : Shelf Binding} (h : c.scratch.values = s.sizes) (ops : List Operation) :
    (c.run ops).scratch.values = (s.after (ops.filterMap Operation.lookup?)).sizes := by
  induction ops using List.reverseRecOn with
  | nil => exact h
  | append_singleton ops op ih =>
    rw [run_append, List.filterMap_append]
    show ((c.run ops).perform op).scratch.values = _
    cases op with
    | lookup t input =>
      show (c.run ops).scratch.values.use (t.extraction input).bindings.length =
        (s.after (ops.filterMap Operation.lookup? ++ [(t, input)])).sizes
      rw [Shelf.after_concat, Template.sizes_lookupIn, ih]
    | add _ _ | insert _ | resolve _ =>
      show _ = (s.after (ops.filterMap Operation.lookup? ++ [])).sizes
      rw [values_perform rfl, List.append_nil, ih]

/-- After any run a catalog looks up as the shelf does that its lookups have used. -/
theorem lookup_run (d : Delimiters) (ceilings : Ceilings) (ops : List Operation) (t : Template)
    (input : Text) :
    let c := (new d ceilings).run ops
    let s := (Shelf.withCeiling ceilings.values).after (ops.filterMap Operation.lookup?)
    (c.lookup t input).1 = (t.lookupIn s input).1 ∧
      (c.lookup t input).2.scratch.values = (t.lookupIn s input).2.sizes := by
  intro c s
  have hvalues : c.scratch.values = s.sizes := values_run rfl ops
  have hcleared : s.Cleared := (Shelf.cleared_withCeiling ceilings.values).after
  show (t.lookupWith c.scratch.values input).1 = _ ∧ (t.lookupWith c.scratch.values input).2 = _
  rw [hvalues, t.lookupWith_sizes hcleared]
  exact ⟨rfl, rfl⟩

end Catalog

/-- After any lookups, another one finds with the buffers of a shelf what it finds without
any.  It leaves one of them idle, or none, and which of the two depends only on whether the
values it has read fit into a buffer that is not beyond the ceiling.  The same holds of the
shelf that a catalog has come by in any run. -/
theorem Template.lookupIn_after (ceiling : Nat) (calls : List (Template × Text)) (t : Template)
    (input : Text) :
    let s := (Shelf.withCeiling ceiling).after calls
    ∃ room, Buffer.IsRoomFor (t.extraction input).bindings.length room ∧
      (t.lookupIn s input).1 = t.lookup? input ∧
      (t.lookupIn s input).2.idle.length = (if room ≤ ceiling then 1 else 0) ∧
      ∀ d steps ops, let c := (Catalog.new d ⟨steps, ceiling⟩).run ops
        c.scratch.values =
            ((Shelf.withCeiling ceiling).after (ops.filterMap Operation.lookup?)).sizes ∧
          (c.lookup t input).1 = t.lookup? input ∧
          (c.lookup t input).2.scratch.values.idle.length = if room ≤ ceiling then 1 else 0 := by
  intro s
  obtain ⟨room, hroom⟩ := Buffer.exists_isRoomFor (t.extraction input).bindings.length
  have hcleared : ∀ calls, ((Shelf.withCeiling ceiling).after calls).Cleared := fun _ =>
    (Shelf.cleared_withCeiling ceiling).after
  have hidle : ∀ calls,
      (t.lookupIn ((Shelf.withCeiling ceiling).after calls) input).2.sizes.idle.length =
        if room ≤ ceiling then 1 else 0 := by
    intro calls
    have hstaged : ((Shelf.withCeiling ceiling).after calls).sizes.Staged :=
      Shelf.staged_sizes_after (BufferPool.staged_withCeiling ceiling)
    rw [sizes_lookupIn, hstaged.length_idle_use hroom, Shelf.ceiling_sizes_after]
    rfl
  refine ⟨room, hroom, lookupIn_of_cleared (hcleared calls) t input, ?_, fun d steps ops => ?_⟩
  · rw [← hidle calls]
    exact (List.length_map _).symm
  · obtain ⟨hfound, hleft⟩ := Catalog.lookup_run d ⟨steps, ceiling⟩ ops t input
    refine ⟨Catalog.values_run rfl ops, ?_, ?_⟩
    · rw [hfound, lookupIn_of_cleared (hcleared _)]
    · rw [hleft, hidle]

/-- The second lookup is lent the buffer of the first one, without the value that was in it. -/
example :
    let page : Template := .counted
      [.start, .slot ['<', 'x', '>'], .literal .plain ['.'], .finish none]
    let s := (Shelf.withCeiling 4).after [(page, ['a', '.'])]
    s.idle = [⟨[], 4⟩] ∧ (page.lookupIn s ['b', '.']).1 = some [⟨['x'], ['b']⟩] := by
  decide

end RouteTemplates
