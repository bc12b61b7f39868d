import RouteTemplates.Proofs.Text.LineBreaks
import RouteTemplates.Proofs.Trie.Trail
import RouteTemplates.Trie.Outline

/-!
# What an outline tells

An outline is made for people to read, and it tells all there is to know of how a trie
resolves inputs.  The description of a segment stands on one line and tells the segment,
unless it is filled, and does not begin with a blank.  So a line tells a label and how
many levels down its node is, and the lines of an outline can be told apart.  Nodes that
are listed with their depths, each one before the nodes below it, can be put together in
one way only: the children of a node go on as long as the depth is greater than its own.
-/

namespace RouteTemplates

namespace Segment

/-! ## The description of a segment -/

/-- The word a description opens with. -/
def describedWord : Segment → Text
  | .start => startWord
  | .finish _ => "END".toList
  | .literal role _ => roleWord role
  | .slot _ => slotWord
  | .filled _ _ => filledWord

/-- The text that a description quotes first. -/
def describedText? : Segment → Option Text
  | .start => none
  | .finish name => name
  | .literal _ text | .slot text => some text
  | .filled written _ => some (nameWithin written)

/-- What a description says behind the text it quotes first. -/
def describedBehind : Segment → Text
  | .start | .finish _ | .slot _ => []
  | .literal _ text => sizeNote text
  | .filled _ value => '=' :: (Text.quoted value ++ sizeNote value)

/-- A quoted text and what stands behind it, in parentheses. -/
def quotedWith (behind : Text) : Option Text → Text
  | none => []
  | some text => '(' :: (Text.quoted text ++ (behind ++ [')']))

theorem describe_eq (s : Segment) :
    s.describe = s.describedWord ++ quotedWith s.describedBehind s.describedText? := by
  cases s with
  | start => rfl
  | finish name => cases name <;> rfl
  | literal _ _ | slot _ | filled _ _ =>
    simp only [describe, describedWord, describedText?, describedBehind, quotedWith,
      List.append_assoc, List.cons_append, List.nil_append]

theorem oneLine_sizeNote (text : Text) : Text.OneLine (sizeNote text) :=
  Text.oneLine_append.mpr ⟨by decide, Text.oneLine_ofNat _⟩

theorem isAlpha_of_mem_describedWord (s : Segment) : ∀ c ∈ s.describedWord, c.isAlpha := by
  have hall : s.describedWord.all Char.isAlpha := by
    rcases s with _ | name | ⟨_ | _, text⟩ | written | ⟨written, value⟩ <;> rfl
  exact List.all_eq_true.mp hall

theorem describedWord_ne_nil (s : Segment) : s.describedWord ≠ [] := by
  rcases s with _ | name | ⟨_ | _, text⟩ | written | ⟨written, value⟩ <;>
    exact List.cons_ne_nil _ _

theorem isAlpha_of_mem_head?_describe (s : Segment) : ∀ c ∈ s.describe.head?, c.isAlpha := by
  obtain ⟨first, more, hword⟩ := List.exists_cons_of_ne_nil s.describedWord_ne_nil
  rw [describe_eq, hword]
  rintro c ⟨⟩
  have hmem : first ∈ s.describedWord := by rw [hword]; exact List.mem_cons_self
  exact s.isAlpha_of_mem_describedWord first hmem

theorem oneLine_describedBehind (s : Segment) : Text.OneLine s.describedBehind := by
  cases s with
  | start | finish _ | slot _ => exact fun _ hc => nomatch hc
  | literal _ text => exact oneLine_sizeNote text
  | filled _ value =>
    rw [describedBehind, Text.oneLine_cons, Text.oneLine_append]
    exact ⟨by decide, Text.oneLine_quoted value, oneLine_sizeNote value⟩

theorem oneLine_describe (s : Segment) : Text.OneLine s.describe := by
  rw [describe_eq, Text.oneLine_append]
  refine ⟨Text.oneLine_of_isAlpha s.isAlpha_of_mem_describedWord, ?_⟩
  cases s.describedText? with
  | none => exact fun _ hc => nomatch hc
  | some text =>
    rw [quotedWith, Text.oneLine_cons, Text.oneLine_append, Text.oneLine_append]
    exact ⟨by decide, Text.oneLine_quoted text, s.oneLine_describedBehind, by decide⟩

theorem quotedWith_inj {text? text?' : Option Text} {behind behind' : Text}
    (h : quotedWith behind text? = quotedWith behind' text?') : text? = text?' := by
  cases text? with
  | none =>
    cases text?' with
    | none => rfl
    | some text' => cases h
  | some text =>
    cases text?' with
    | none => cases h
    | some text' => rw [(Text.quoted_append_inj (List.cons.inj h).2).1]

/-- Segments that are described alike are the same, unless they are filled: what fills a
slot is described and the delimiters of the slot are not. -/
theorem describe_inj {s t : Segment} (hs : s.isFilled = false) (ht : t.isFilled = false)
    (h : s.describe = t.describe) : s = t := by
  have hstop : ∀ s : Segment, ∀ c ∈ s.describedWord, ¬ c = '(' := by
    rintro s _ hc rfl
    cases s.isAlpha_of_mem_describedWord _ hc
  have hhead : ∀ (behind : Text) (text? : Option Text),
      ∀ c ∈ (quotedWith behind text?).head?, c = '(' := by
    intro behind text?
    cases text? <;> simp [quotedWith]
  rw [describe_eq, describe_eq] at h
  obtain ⟨hword, hbehind⟩ :=
    Text.append_inj_of_stop (hstop s) (hstop t) (hhead _ _) (hhead _ _) h
  have htext := quotedWith_inj hbehind
  -- Segments of different kinds have different words, and those of one kind one text.
  rcases s with _ | name | ⟨_ | _, text⟩ | written | ⟨written, value⟩ <;>
    rcases t with _ | name' | ⟨_ | _, text'⟩ | written' | ⟨written', value'⟩ <;>
    first
    | exact absurd hword (of_decide_eq_false rfl)
    | cases htext; rfl
    | cases hs

end Segment

namespace Node

open Segment

/-! ## Lines -/

/-- A node as an outline shows it. -/
structure Entry where
  depth : Nat
  label : Segment

/-- Two blanks for each level above the node, and its label. -/
def Entry.line (e : Entry) : Text := List.replicate (2 * e.depth) ' ' ++ e.label.describe

theorem Entry.oneLine_line (e : Entry) : Text.OneLine e.line := by
  refine Text.oneLine_append.mpr ⟨fun c hc => ?_, oneLine_describe e.label⟩
  rw [List.eq_of_mem_replicate hc]
  decide

/-- A line tells the depth and the label. -/
theorem Entry.line_inj {e f : Entry} (he : e.label.isFilled = false)
    (hf : f.label.isFilled = false) (h : e.line = f.line) : e = f := by
  have hblank : ∀ n : Nat, ∀ c ∈ List.replicate n ' ', ¬ c ≠ ' ' := fun n c hc hne =>
    hne (List.eq_of_mem_replicate hc)
  have hstop : ∀ s : Segment, ∀ c ∈ s.describe.head?, c ≠ ' ' := by
    rintro s _ hc rfl
    cases s.isAlpha_of_mem_head?_describe _ hc
  obtain ⟨hdepth, hlabel⟩ :=
    Text.append_inj_of_stop (hblank _) (hblank _) (hstop e.label) (hstop f.label) h
  have hlength := congrArg List.length hdepth
  rw [List.length_replicate, List.length_replicate] at hlength
  obtain ⟨depth, label⟩ := e
  obtain ⟨depth', label'⟩ := f
  obtain rfl : depth = depth' := Nat.eq_of_mul_eq_mul_left (by decide) hlength
  obtain rfl : label = label' := describe_inj he hf hlabel
  rfl

theorem map_line_inj {entries entries' : List Entry}
    (h : ∀ e ∈ entries, e.label.isFilled = false) (h' : ∀ e ∈ entries', e.label.isFilled = false)
    (heq : entries.map Entry.line = entries'.map Entry.line) : entries = entries' := by
  induction entries generalizing entries' with
  | nil => exact (List.map_eq_nil_iff.mp heq.symm).symm
  | cons e entries ih =>
    obtain ⟨f, more, rfl, hline, hmore⟩ := List.map_eq_cons_iff.mp heq.symm
    obtain ⟨he, hentries⟩ := List.forall_mem_cons.mp h
    obtain ⟨hf, hothers⟩ := List.forall_mem_cons.mp h'
    rw [Entry.line_inj he hf hline.symm, ih hentries hothers hmore.symm]

/-- The nodes of some trees in the order of their paths.  A node is as many levels down
as there are labels before its own. -/
def entriesOf (depth : Nat) (trees : List Node) : List Entry :=
  (pathsOf trees).map fun path => ⟨depth + (path.length - 1), path.getLastD .start⟩

theorem length_entriesOf (depth : Nat) (trees : List Node) :
    (entriesOf depth trees).length = totalSize trees := by
  rw [entriesOf, List.length_map, length_pathsOf]

theorem entriesOf_cons (depth : Nat) (label : Segment) (children more : List Node) :
    entriesOf depth (mk label children :: more) =
      ⟨depth, label⟩ :: (entriesOf (depth + 1) children ++ entriesOf depth more) := by
  have hbelow : ((pathsOf children).map (label :: ·)).map (fun path =>
      (⟨depth + (path.length - 1), path.getLastD .start⟩ : Entry)) =
        entriesOf (depth + 1) children := by
    rw [entriesOf, List.map_map]
    refine List.map_congr_left fun path hpath => ?_
    obtain ⟨s, rest, rfl⟩ := List.exists_cons_of_ne_nil (ne_nil_of_mem_pathsOf hpath)
    simp [Nat.add_assoc, Nat.add_comm 1]
  rw [entriesOf, pathsOf, paths, List.cons_append, List.map_cons, List.map_append, hbelow]
  rfl

mutual

theorem outline_eq : ∀ (n : Node) (depth : Nat),
    n.outline depth = (entriesOf depth [n]).map Entry.line
  | mk label children, depth => by
    rw [outline, entriesOf_cons, outlines_eq children]
    simp [entriesOf, pathsOf, Entry.line]

theorem outlines_eq : ∀ (trees : List Node) (depth : Nat),
    outlines trees depth = (entriesOf depth trees).map Entry.line
  | [], _ => rfl
  | mk label children :: more, depth => by
    rw [outlines, outline_eq, outlines_eq more, entriesOf_cons, entriesOf_cons]
    simp [entriesOf, pathsOf]

end

/-! ## Trees from entries -/

/-- What stands behind the entries of trees at the depth begins above it. -/
def Above (depth : Nat) (rest : List Entry) : Prop := ∀ e ∈ rest.head?, e.depth < depth

theorem above_entriesOf_append {depth : Nat} {rest : List Entry} (trees : List Node)
    (h : Above depth rest) : Above (depth + 1) (entriesOf depth trees ++ rest) := by
  cases trees with
  | nil => exact fun e he => Nat.lt_succ_of_lt (h e he)
  | cons n more =>
    obtain ⟨label, children⟩ := n
    rw [entriesOf_cons]
    rintro e ⟨⟩
    exact Nat.lt_succ_self depth

theorem not_above_cons (depth : Nat) (label : Segment) (rest : List Entry) :
    ¬ Above depth (⟨depth, label⟩ :: rest) := fun h => Nat.lt_irrefl depth (h _ rfl)

/-- Trees are known from their entries, also in front of entries from above. -/
theorem entriesOf_append_inj : ∀ (trees trees' : List Node) {depth : Nat} {rest rest' : List Entry},
    Above depth rest → Above depth rest' →
      entriesOf depth trees ++ rest = entriesOf depth trees' ++ rest' →
        trees = trees' ∧ rest = rest'
  | [], [], _, _, _, _, _, h => ⟨rfl, h⟩
  | [], mk label' children' :: more', depth, _, _, hrest, _, h => by
    rw [entriesOf_cons] at h
    obtain rfl := h
    exact absurd hrest (not_above_cons depth label' _)
  | mk label children :: more, [], depth, _, _, _, hrest', h => by
    rw [entriesOf_cons] at h
    obtain rfl := h
    exact absurd hrest' (not_above_cons depth label _)
  | mk label children :: more, mk label' children' :: more', depth, rest, rest', hrest, hrest',
      h => by
    rw [entriesOf_cons, entriesOf_cons, List.cons_append, List.cons_append, List.append_assoc,
      List.append_assoc] at h
    obtain ⟨hhead, htail⟩ := List.cons.inj h
    obtain rfl : label = label' := congrArg Entry.label hhead
    obtain ⟨rfl, hbehind⟩ := entriesOf_append_inj children children'
      (above_entriesOf_append more hrest) (above_entriesOf_append more' hrest') htail
    obtain ⟨rfl, rfl⟩ := entriesOf_append_inj more more' hrest hrest' hbehind
    exact ⟨rfl, rfl⟩

theorem entriesOf_injective {depth : Nat} {trees trees' : List Node}
    (h : entriesOf depth trees = entriesOf depth trees') : trees = trees' := by
  have hnone : Above depth [] := nofun
  exact (entriesOf_append_inj trees trees' hnone hnone (by rw [h])).1

end Node

open Segment Node

/-- The lines of the nodes of a trie. -/
def Trie.lines (t : Trie) : List Text := (entriesOf 0 t.roots).map Entry.line

theorem Trie.outline_eq (t : Trie) : t.outline = t.lines.flatMap (· ++ ['\n']) := by
  rw [Trie.outline, outlines_eq, Trie.lines]

theorem Trie.length_lines (t : Trie) : t.lines.length = t.nodeCount := by
  rw [Trie.lines, List.length_map, length_entriesOf, Trie.nodeCount]

theorem Trie.oneLine_of_mem_lines (t : Trie) : ∀ l ∈ t.lines, Text.OneLine l := by
  intro l hl
  obtain ⟨e, _, rfl⟩ := List.mem_map.mp hl
  exact e.oneLine_line

theorem Trie.Represents.not_filled_of_mem_entriesOf {t : Trie} {rows : List (List Segment)}
    (h : t.Represents rows) : ∀ e ∈ entriesOf 0 t.roots, e.label.isFilled = false := by
  intro e he
  obtain ⟨path, hpath, rfl⟩ := List.mem_map.mp he
  show (path.getLastD .start).isFilled = false
  have hlast : path.getLastD .start ∈ Segment.start :: path := List.getLastD_mem_cons
  rcases List.mem_cons.mp hlast with hstart | hmem
  · rw [hstart]
    rfl
  · exact h.not_filled_of_mem_pathsOf hpath _ hmem

/-- Tries that were given templates in any way have one outline only if they consist of
the same trees. -/
theorem Trie.Represents.roots_eq_of_outline_eq {t t' : Trie} {rows rows' : List (List Segment)}
    (h : t.Represents rows) (h' : t'.Represents rows') (heq : t.outline = t'.outline) :
    t.roots = t'.roots := by
  rw [Trie.outline_eq, Trie.outline_eq] at heq
  have hlines := Text.lines_injective t.oneLine_of_mem_lines t'.oneLine_of_mem_lines heq
  exact entriesOf_injective
    (map_line_inj h.not_filled_of_mem_entriesOf h'.not_filled_of_mem_entriesOf hlines)

/-- Arenas that hold the same trees resolve an input alike, wherever their cells are. -/
theorem Arena.Holds.resolve?_congr {a b : Arena} {t : Trie} (ha : a.Holds t.roots)
    (hb : b.Holds t.roots) (input : Text) : b.resolve? input = a.resolve? input := by
  rw [ha.resolve?_eq, hb.resolve?_eq]

/-- The outline of a catalog has a line for each node, in the order of the paths, with
two blanks for each level above the node and then the description of its segment, and
no line breaks but those that close the lines.  Catalogs with one outline resolve every
input alike, whatever their delimiters and ceilings are and however they came about: they
have the same trees.  So do arenas given the same templates, although they may differ in
where their cells are. -/
theorem Catalog.Registered.outline_tells {c : Catalog} {ts : List Template}
    (h : c.Registered ts) :
    (c.trie.outline = c.trie.lines.flatMap (· ++ ['\n']) ∧
      c.trie.lines.length = c.trie.nodeCount ∧
      c.trie.outline.count '\n' = c.trie.nodeCount ∧
      ∀ l ∈ c.trie.lines, Text.OneLine l) ∧
    ∀ (c' : Catalog) (ts' : List Template), c'.Registered ts' →
      c'.trie.outline = c.trie.outline →
        c'.trie.roots = c.trie.roots ∧ (Arena.ofTemplates ts').Holds c.trie.roots ∧
          (∀ input, (c'.resolve input).1 = (c.resolve input).1) ∧
          ∀ input, (Arena.ofTemplates ts').resolve? input = (Arena.ofTemplates ts).resolve? input ∧
            (Arena.ofTemplates ts).resolve? input = (c.resolve input).1 := by
  constructor
  · refine ⟨c.trie.outline_eq, c.trie.length_lines, ?_, c.trie.oneLine_of_mem_lines⟩
    rw [c.trie.outline_eq, Text.count_lines c.trie.oneLine_of_mem_lines, c.trie.length_lines]
  · intro c' ts' h' heq
    have hroots := h'.sound.represents.roots_eq_of_outline_eq h.sound.represents heq
    have hholds : (Arena.ofTemplates ts').Holds c.trie.roots := hroots ▸ h'.arena_holds
    have hcells : ∀ input,
        (Arena.ofTemplates ts').resolve? input = (Arena.ofTemplates ts).resolve? input :=
      h.arena_holds.resolve?_congr hholds
    refine ⟨hroots, hholds, fun input => ?_, fun input => ⟨hcells input, h.arena_resolve? input⟩⟩
    rw [← h'.arena_resolve? input, hcells, h.arena_resolve? input]

/-- Two catalogs with different delimiters and ceilings, given the same templates in
different orders and one of them twice.  The cells of their arenas differ. -/
theorem Catalog.Registered.outline_tells_of_quotes :
    let route : Template := .counted
      [.start, .literal .plain ['/', '\n'], .slot ['<', ' ', '>'], .finish none]
    let leaf : Template := .counted
      [.start, .literal .plain ['/', '\n'], .finish (some ['"'])]
    let c := [route, leaf].foldl Catalog.insert (.new .braces .standard)
    let c' := [leaf, route, leaf].foldl Catalog.insert (.new ⟨'<', '>', by decide⟩ ⟨0, 1⟩)
    let a := Arena.ofTemplates [route, leaf]
    let b := Arena.ofTemplates [leaf, route, leaf]
    let shown := ["START", "  Const(\"/\\n\", len=2)", "    Parameter(\"< >\")", "      END",
      "    END(\"\\\"\")"].map String.toList
    c.trie.lines = shown ∧ c.trie.outline = shown.flatMap (· ++ ['\n']) ∧
      c'.trie.outline = c.trie.outline ∧ (∀ input, (c'.resolve input).1 = (c.resolve input).1) ∧
      b ≠ a ∧ ∀ input, b.resolve? input = a.resolve? input := by
  intro route leaf c c' a b shown
  have hc : c.Registered [route, leaf] := Catalog.registered_foldl_ofSegments _ _ (by decide)
  have hc' : c'.Registered [leaf, route, leaf] :=
    Catalog.registered_foldl_ofSegments _ _ (by decide)
  have hlines : c.trie.lines = shown := by decide +kernel
  have hsame : c'.trie.outline = c.trie.outline := by decide +kernel
  obtain ⟨⟨houtline, _⟩, htells⟩ := hc.outline_tells
  obtain ⟨_, _, hresolve, hcells⟩ := htells c' _ hc' hsame
  exact ⟨hlines, by rw [houtline, hlines], hsame, hresolve, by decide,
    fun input => (hcells input).1⟩

end RouteTemplates
