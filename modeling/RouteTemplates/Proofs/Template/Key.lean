import RouteTemplates.Proofs.History
import RouteTemplates.Proofs.Template.Spelling
import RouteTemplates.Proofs.Text.Quoting

/-!
# What a key tells

A key is made to look templates up by, so it matters that no two templates share
one.  The key of a segment is a word and sometimes a quoted text in parentheses.  The
word stops before the parenthesis or the arrow, and the quoted text tells where it
ends, whatever arrows and parentheses it holds, so a chain of keys can be read from
the front.  What a key does not tell is how a slot is written around its name and what
it was filled with.  With one pair of delimiters the former is settled, so templates
that were written with it have one key only if they are the same.
-/

namespace RouteTemplates

namespace Segment

/-- Segments that differ at most in what fills a slot and in its delimiters. -/
inductive Agrees : Segment → Segment → Prop
  | start : Agrees .start .start
  | finish (name : Option Text) : Agrees (.finish name) (.finish name)
  | literal (role : LiteralRole) (text : Text) : Agrees (.literal role text) (.literal role text)
  | slot {s t : Segment} {name : Text} :
      s.slotName? = some name → t.slotName? = some name → Agrees s t

/-! ## The key of a segment -/

/-- The word a key opens with. -/
def keyWord : Segment → Text
  | .start => ['S', 'T', 'A', 'R', 'T']
  | .finish _ => ['E', 'N', 'D']
  | .literal .plain _ => ['C', 'o', 'n', 's', 't']
  | .literal .separator _ => ['S', 'e', 'p', 'a', 'r', 'a', 't', 'o', 'r']
  | .slot _ | .filled _ _ => ['P', 'a', 'r', 'a', 'm']

/-- The text that a key holds in parentheses. -/
def keyText? : Segment → Option Text
  | .start => none
  | .finish name => name
  | .literal _ text => some text
  | .slot written | .filled written _ => some (nameWithin written)

def inParentheses : Option Text → Text
  | none => []
  | some text => '(' :: (Text.quoted text ++ [')'])

theorem key_eq (s : Segment) : s.key = s.keyWord ++ inParentheses s.keyText? := by
  cases s with
  | finish name => cases name <;> rfl
  | literal role text => cases role <;> rfl
  | start | slot _ | filled _ _ => rfl

/-- The words of segments of different kinds differ. -/
theorem agrees_iff {s t : Segment} :
    Agrees s t ↔ s.keyWord = t.keyWord ∧ s.keyText? = t.keyText? := by
  constructor
  · intro h
    cases h with
    | start | finish _ | literal _ _ => exact ⟨rfl, rfl⟩
    | slot hs ht => cases s <;> cases t <;> simp_all [slotName?, keyWord, keyText?]
  · rintro ⟨hword, htext⟩
    rcases s with _ | name | ⟨_ | _, text⟩ | written | ⟨written, value⟩ <;>
      rcases t with _ | name' | ⟨_ | _, text'⟩ | written' | ⟨written', value'⟩ <;>
      simp only [keyWord, keyText?, List.cons.injEq, Char.reduceEq, false_and, reduceCtorEq,
        Option.some.injEq] at hword htext
    case start.start => exact .start
    case finish.finish => exact htext ▸ .finish name
    case literal.plain.literal.plain => exact htext ▸ .literal .plain text
    case literal.separator.literal.separator => exact htext ▸ .literal .separator text
    all_goals exact .slot rfl (congrArg some htext.symm)

/-- A word stops before the parenthesis or the arrow that follows it. -/
theorem not_stop_of_mem_keyWord (s : Segment) : ∀ c ∈ s.keyWord, ¬ (c = '(' ∨ c = '-') := by
  cases s with
  | literal role text => cases role <;> simp [keyWord]
  | start | finish _ | slot _ | filled _ _ => simp [keyWord]

theorem inParentheses_append_inj {text? text?' : Option Text} {rest rest' : Text}
    (hrest : ∀ c ∈ rest.head?, c = '-') (hrest' : ∀ c ∈ rest'.head?, c = '-')
    (h : inParentheses text? ++ rest = inParentheses text?' ++ rest') :
    text? = text?' ∧ rest = rest' := by
  cases text? with
  | none =>
    cases text?' with
    | none => exact ⟨rfl, h⟩
    | some text' =>
      obtain rfl : rest = '(' :: (Text.quoted text' ++ [')'] ++ rest') := h
      cases hrest '(' rfl
  | some text =>
    cases text?' with
    | none =>
      obtain rfl : '(' :: (Text.quoted text ++ [')'] ++ rest) = rest' := h
      cases hrest' '(' rfl
    | some text' =>
      have hquoted : Text.quoted text ++ (')' :: rest) = Text.quoted text' ++ (')' :: rest') := by
        simpa [inParentheses] using h
      obtain ⟨rfl, hbehind⟩ := Text.quoted_append_inj hquoted
      exact ⟨rfl, (List.cons.inj hbehind).2⟩

/-- The key of a segment tells the segment, up to agreement, and where the key ends. -/
theorem key_append_inj {s t : Segment} {rest rest' : Text} (hrest : ∀ c ∈ rest.head?, c = '-')
    (hrest' : ∀ c ∈ rest'.head?, c = '-') (h : s.key ++ rest = t.key ++ rest') :
    Agrees s t ∧ rest = rest' := by
  have hstop : ∀ text? rest, (∀ c ∈ rest.head?, c = '-') →
      ∀ c ∈ (inParentheses text? ++ rest).head?, c = '(' ∨ c = '-' := by
    intro text? rest hrest c hc
    cases text? with
    | none => exact .inr (hrest c hc)
    | some text =>
      left
      simpa [inParentheses, eq_comm] using hc
  rw [key_eq, key_eq, List.append_assoc, List.append_assoc] at h
  obtain ⟨hword, hbehind⟩ := Text.append_inj_of_stop (not_stop_of_mem_keyWord s)
    (not_stop_of_mem_keyWord t) (hstop _ _ hrest) (hstop _ _ hrest') h
  obtain ⟨htext, hrest⟩ := inParentheses_append_inj hrest hrest' hbehind
  exact ⟨agrees_iff.mpr ⟨hword, htext⟩, hrest⟩

/-! ## The key of a row -/

/-- What follows the first key of a row. -/
def keysBehind (row : List Segment) : Text := row.flatMap fun s => '-' :: '>' :: s.key

theorem chain_keys (s : Segment) (row : List Segment) :
    chain ((s :: row).map key) = s.key ++ keysBehind row := by
  induction row generalizing s with
  | nil => simp [chain, keysBehind]
  | cons t row ih =>
    have hmore := ih t
    rw [chain, List.map_cons] at hmore
    rw [chain, List.map_cons, List.map_cons, List.intercalate_cons_cons, hmore]
    simp [keysBehind]

theorem head?_keysBehind (row : List Segment) : ∀ c ∈ (keysBehind row).head?, c = '-' := by
  cases row <;> simp [keysBehind, eq_comm]

theorem keysBehind_inj {row row' : List Segment} (h : keysBehind row = keysBehind row') :
    List.Forall₂ Agrees row row' := by
  induction row generalizing row' with
  | nil =>
    cases row' with
    | nil => exact .nil
    | cons t row' => cases h
  | cons s row ih =>
    cases row' with
    | nil => cases h
    | cons t row' =>
      have hkeys : s.key ++ keysBehind row = t.key ++ keysBehind row' :=
        (List.cons.inj (List.cons.inj h).2).2
      obtain ⟨hagrees, hmore⟩ :=
        key_append_inj (head?_keysBehind row) (head?_keysBehind row') hkeys
      exact .cons hagrees (ih hmore)

theorem Agrees.key_eq {s t : Segment} (h : Agrees s t) : s.key = t.key := by
  obtain ⟨hword, htext⟩ := agrees_iff.mp h
  rw [Segment.key_eq, Segment.key_eq, hword, htext]

theorem key_ne_nil (s : Segment) : s.key ≠ [] := by
  rw [key_eq]
  rcases s with _ | name | ⟨_ | _, text⟩ | written | ⟨written, value⟩ <;> simp [keyWord]

end Segment

open Segment

theorem Template.key_eq_iff {t u : Template} :
    t.key = u.key ↔ List.Forall₂ Agrees t.segments u.segments := by
  rw [Template.key, Template.key]
  generalize t.segments = row
  generalize u.segments = row'
  constructor
  · intro h
    cases row with
    | nil =>
      cases row' with
      | nil => exact .nil
      | cons s' row' =>
        rw [chain_keys] at h
        exact absurd (List.append_eq_nil_iff.mp h.symm).1 (key_ne_nil s')
    | cons s row =>
      cases row' with
      | nil =>
        rw [chain_keys] at h
        exact absurd (List.append_eq_nil_iff.mp h).1 (key_ne_nil s)
      | cons s' row' =>
        rw [chain_keys, chain_keys] at h
        obtain ⟨hagrees, hmore⟩ :=
          key_append_inj (head?_keysBehind row) (head?_keysBehind row') h
        exact .cons hagrees (keysBehind_inj hmore)
  · intro h
    refine congrArg chain ?_
    induction h with
    | nil => rfl
    | cons hagrees _ ih => rw [List.map_cons, List.map_cons, hagrees.key_eq, ih]

/-! ## Templates written with one pair of delimiters -/

/-- A slot is written with these delimiters, and nothing is filled. -/
def Segment.WrittenWith (d : Delimiters) (s : Segment) : Prop :=
  s.isSlot → ∃ name, s = .slotNamed d.opening d.closing name

/-- The templates made by compiling texts and splitting what came of them. -/
inductive Template.MadeWith (d : Delimiters) : Template → Prop
  | compile {name text : Text} {t : Template} :
      Template.compile d name text = .ok t → MadeWith d t
  | splitOn {t : Template} (separator : Text) : MadeWith d t → MadeWith d (t.splitOn separator)

section

variable {d : Delimiters}

theorem Segment.Agrees.eq {s t : Segment} (h : Agrees s t) (hs : s.WrittenWith d)
    (ht : t.WrittenWith d) : s = t := by
  cases h with
  | start | finish _ | literal _ _ => rfl
  | slot hname hname' =>
    obtain ⟨name, rfl⟩ := hs (by rw [isSlot, hname]; rfl)
    obtain ⟨name', rfl⟩ := ht (by rw [isSlot, hname']; rfl)
    rw [slotNamed, slotName?, nameWithin_delimited, Option.some.injEq] at hname hname'
    rw [hname, hname']

theorem Segment.eq_of_forall₂_agrees {row row' : List Segment} (h : List.Forall₂ Agrees row row')
    (hrow : ∀ s ∈ row, s.WrittenWith d) (hrow' : ∀ s ∈ row', s.WrittenWith d) : row = row' := by
  induction h with
  | nil => rfl
  | cons hagrees _ ih =>
    obtain ⟨hs, hrow⟩ := List.forall_mem_cons.mp hrow
    obtain ⟨hs', hrow'⟩ := List.forall_mem_cons.mp hrow'
    rw [hagrees.eq hs hs', ih hrow hrow']

theorem Segment.writtenWith_of_not_isSlot {s : Segment} (h : s.isSlot = false) :
    s.WrittenWith d := by
  intro hslot
  rw [h] at hslot
  cases hslot

theorem Segment.writtenWith_plainOf (text : Text) : ∀ s ∈ plainOf text, s.WrittenWith d := by
  intro s hs
  refine writtenWith_of_not_isSlot ?_
  obtain ⟨_, rfl⟩ : text ≠ [] ∧ s = .literal .plain text := by
    simpa [plainOf] using hs
  rfl

theorem Spelling.writtenWith_body (s : Spelling) : ∀ x ∈ s.body d, x.WrittenWith d := by
  have hslots : ∀ slots, ∀ x ∈ slotsBody d slots, x.WrittenWith d := by
    intro slots
    induction slots with
    | nil => simp [slotsBody]
    | cons slot slots ih =>
      obtain ⟨name, behind⟩ := slot
      rw [slotsBody]
      refine List.forall_mem_cons.mpr ⟨fun _ => ⟨name, rfl⟩, ?_⟩
      exact List.forall_mem_append.mpr ⟨writtenWith_plainOf behind, ih⟩
  exact List.forall_mem_append.mpr ⟨writtenWith_plainOf s.front, hslots s.slots⟩

theorem Template.exists_spelling_of_compile {name text : Text} {t : Template}
    (h : compile d name text = .ok t) : ∃ s : Spelling, s.written d = text ∧
      t = .counted (.start :: (s.body d ++ [.finishNamed name])) := by
  obtain ⟨hne, s, hs, rfl⟩ := Spelling.exists_of_compile h
  exact ⟨s, rfl, Except.ok.inj (h.symm.trans (Spelling.compile_of_grammatical hs name hne))⟩

theorem Template.MadeWith.wellFormed {t : Template} (h : t.MadeWith d) : t.WellFormed := by
  induction h with
  | compile h => exact wellFormed_of_compile h
  | splitOn separator _ ih => exact ih.splitOn separator

theorem Template.writtenWith_splitSegment {separator : Text} (hsep : separator ≠ []) {s : Segment}
    (h : s.WrittenWith d) : ∀ x ∈ splitSegment separator hsep s, x.WrittenWith d := by
  intro x hx hslot
  obtain rfl := eq_of_mem_splitSegment hsep hx hslot
  exact h hslot

theorem Template.MadeWith.writtenWith {t : Template} (h : t.MadeWith d) :
    ∀ s ∈ t.segments, s.WrittenWith d := by
  induction h with
  | compile h =>
    obtain ⟨s, _, rfl⟩ := exists_spelling_of_compile h
    refine List.forall_mem_cons.mpr ⟨writtenWith_of_not_isSlot rfl, ?_⟩
    refine List.forall_mem_append.mpr ⟨s.writtenWith_body, ?_⟩
    exact List.forall_mem_singleton.mpr (writtenWith_of_not_isSlot rfl)
  | @splitOn t separator _ ih =>
    unfold Template.splitOn
    split
    · rename_i hsep
      intro x hx
      obtain ⟨s, hs, hx⟩ := List.mem_flatMap.mp hx
      exact writtenWith_splitSegment hsep (ih s hs) x hx
    · exact ih

theorem Template.MadeWith.eq_of_key_eq {t u : Template} (ht : t.MadeWith d) (hu : u.MadeWith d)
    (h : t.key = u.key) : t = u :=
  ht.wellFormed.eq_of_segments_eq hu.wellFormed
    (eq_of_forall₂_agrees (Template.key_eq_iff.mp h) ht.writtenWith hu.writtenWith)

theorem Segment.finishNamed_injective {name name' : Text}
    (h : finishNamed name = finishNamed name') : name = name' := by
  by_cases hn : name = [] <;> by_cases hn' : name' = [] <;> simp_all [finishNamed]

/-- The segments of a compiled template give its name and its text back. -/
theorem Template.compile_injective {name name' text text' : Text} {t : Template}
    (h : compile d name text = .ok t) (h' : compile d name' text' = .ok t) :
    name = name' ∧ text = text' := by
  obtain ⟨s, rfl, rfl⟩ := exists_spelling_of_compile h
  obtain ⟨s', rfl, heq⟩ := exists_spelling_of_compile h'
  obtain ⟨_, hrow⟩ := List.cons.inj (congrArg Template.segments heq)
  obtain ⟨hbody, hfinish⟩ := List.append_inj' hrow rfl
  refine ⟨finishNamed_injective (List.cons.inj hfinish).1, ?_⟩
  rw [← Spelling.flatMap_shown_body, hbody, Spelling.flatMap_shown_body]

end

/-- Two templates have one key if and only if their segments agree one by one.  So
compiled with one pair of delimiters they have one key if and only if their names and
texts are the same, and where only templates made with one pair are registered, the
key of what an input is resolved to is the key of one of them and of no other. -/
theorem Template.key_tells :
    (∀ t u : Template, t.key = u.key ↔ List.Forall₂ Agrees t.segments u.segments) ∧
    (∀ (d : Delimiters) (name name' text text' : Text) (t u : Template),
      compile d name text = .ok t → compile d name' text' = .ok u →
        (t.key = u.key ↔ name = name' ∧ text = text')) ∧
    ∀ (d : Delimiters) (c : Catalog) (ts : List Template), c.Registered ts →
      (∀ t ∈ ts, t.MadeWith d) → ∀ input found, (c.resolve input).1 = some found →
        ∃ p ∈ ts, p.key = found.key ∧ ∀ q ∈ ts, q.key = found.key → q = p := by
  refine ⟨fun t u => Template.key_eq_iff, fun d name name' text text' t u ht hu => ⟨?_, ?_⟩, ?_⟩
  · intro hkey
    obtain rfl := (MadeWith.compile ht).eq_of_key_eq (.compile hu) hkey
    exact compile_injective ht hu
  · rintro ⟨rfl, rfl⟩
    rw [Except.ok.inj (ht.symm.trans hu)]
  · intro d c ts h hmade input found hf
    obtain ⟨_, hmem, _⟩ := h.sound.represents.route_of_resolve? hf
    obtain ⟨p, hp, hrow⟩ := List.mem_map.mp hmem
    have hkey : p.key = found.key := by
      rw [← key_unfilled p, ← key_unfilled found]
      exact congrArg (fun row => chain (row.map Segment.key)) hrow
    refine ⟨p, hp, hkey, fun q hq hq' => ?_⟩
    exact (hmade q hq).eq_of_key_eq (hmade p hp) (hq'.trans hkey.symm)

/-- A text that reads like the keys of two segments, and a text that has them. -/
theorem Template.key_tells_of_lookalike :
    let text : Text := ['a', '"', ')', '-', '>', 'P', 'a', 'r', 'a', 'm', '(', '"', 'x']
    let alike : Template := .counted [.start, .literal .plain text, .finish none]
    let page : Template := .counted
      [.start, .literal .plain ['a'], .slot ['\x7b', 'x', '\x7d'], .finish none]
    let c := [alike, page].foldl Catalog.insert (.new .braces .standard)
    compile .braces [] text = .ok alike ∧
      compile .braces [] ['a', '\x7b', 'x', '\x7d'] = .ok page ∧ alike.key ≠ page.key ∧
      ∃ found, (c.resolve ['a', 'é']).1 = some found ∧
        ∃ p ∈ [alike, page], p.key = found.key ∧
          ∀ q ∈ [alike, page], q.key = found.key → q = p := by
  intro text alike page c
  have halike : compile .braces [] text = .ok alike := rfl
  have hpage : compile .braces [] ['a', '\x7b', 'x', '\x7d'] = .ok page := rfl
  have hregistered : c.Registered [alike, page] := by
    refine Catalog.registered_foldl _ _ ?_
    simpa using ⟨.compile halike, .compile hpage⟩
  have hf : ∃ found, (c.resolve ['a', 'é']).1 = some found := ⟨_, rfl⟩
  obtain ⟨found, hf⟩ := hf
  obtain ⟨_, hkeys, hfound⟩ := key_tells
  refine ⟨halike, hpage, fun hkey => ?_, found, hf, ?_⟩
  · have htexts := ((hkeys _ _ _ _ _ _ _ halike hpage).mp hkey).2
    simp [text] at htexts
  · refine hfound .braces c _ hregistered ?_ _ found hf
    simpa using ⟨.compile halike, .compile hpage⟩

end RouteTemplates
