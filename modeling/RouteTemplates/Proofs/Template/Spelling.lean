import RouteTemplates.Proofs.Template.Instance

/-!
# How templates are spelled

The text of a template is made up of literals and of slots between them, and a
delimiter may also be part of a literal: a closing one where no slot is open, an
opening one if another opens before anything closes.  So the characters alone do
not tell where the slots are.  The rules are stated here on the parts of a text.
The scan finds the one way there is to take a text apart by the rules, and fails
when there is none.

The scan of a literal and that of a name are followed at once, and what either has
gathered is part of the text that is taken apart.
-/

namespace RouteTemplates

open Segment

/-- The parts of a text: the literal in front, and for each slot its name and the
literal behind it. -/
structure Spelling where
  front : Text
  slots : List (Text × Text)

namespace Spelling

def names (s : Spelling) : List Text := s.slots.map Prod.fst

/-- There is one literal more than there are slots.  Literals may be empty. -/
def literals (s : Spelling) : List Text := s.front :: s.slots.map Prod.snd

section

variable (d : Delimiters)

def slotsWritten : List (Text × Text) → Text
  | [] => []
  | (name, behind) :: more => d.opening :: (name ++ d.closing :: (behind ++ slotsWritten more))

/-- The text put together again. -/
def written (s : Spelling) : Text := s.front ++ slotsWritten d s.slots

def slotsBody : List (Text × Text) → List Segment
  | [] => []
  | (name, behind) :: more =>
    .slotNamed d.opening d.closing name :: (plainOf behind ++ slotsBody more)

/-- The segments that stand for the parts, between the start and the end. -/
def body (s : Spelling) : List Segment := plainOf s.front ++ slotsBody d s.slots

/-- No opening delimiter in the literal has a closing one somewhere behind it. -/
def StaysOpen (literal : Text) : Prop :=
  ∀ before after, literal = before ++ d.opening :: after → d.closing ∉ after

/-- What stands between two slots has to keep them apart. -/
def KeepsApart (literal : Text) : Prop := literal ≠ [] ∧ literal.head? ≠ some d.opening

/-- The rules.  The literals that a slot follows are all but the last, and those
between two slots all but the first and the last. -/
structure Grammatical (s : Spelling) : Prop where
  names : ∀ name ∈ s.names, name ≠ [] ∧ d.opening ∉ name ∧ d.closing ∉ name
  beforeSlot : ∀ literal ∈ s.literals.dropLast, StaysOpen d literal
  between : ∀ literal ∈ s.literals.tail.dropLast, KeepsApart d literal
  last : ∀ literal ∈ s.literals.getLast?, d.opening ∉ literal

/-- The rules from the front, for what may stand behind a slot or, if `afterSlot` is
false, at the beginning. -/
inductive Follows : (afterSlot : Bool) → (literal : Text) → List (Text × Text) → Prop
  | last {afterSlot : Bool} {literal : Text} :
      d.opening ∉ literal → Follows afterSlot literal []
  | slot {afterSlot : Bool} {literal name behind : Text} {more : List (Text × Text)} :
      StaysOpen d literal → (afterSlot → KeepsApart d literal) →
      name ≠ [] ∧ d.opening ∉ name ∧ d.closing ∉ name → Follows true behind more →
      Follows afterSlot literal ((name, behind) :: more)

end

variable {d : Delimiters}

theorem follows_iff {afterSlot : Bool} {literal : Text} {slots : List (Text × Text)} :
    Follows d afterSlot literal slots ↔
      Grammatical d ⟨literal, slots⟩ ∧
        (afterSlot → ∀ l ∈ (literal :: slots.map Prod.snd).dropLast, KeepsApart d l) := by
  constructor
  · intro h
    induction h with
    | last hl => exact ⟨⟨by simp [names], by simp [literals], by simp [literals],
        by simpa [literals] using hl⟩, by simp⟩
    | @slot afterSlot literal name behind more hstays hapart hname _ ih =>
      obtain ⟨⟨hnames, hbefore, hbetween, hlast⟩, hbehind⟩ := ih
      have happart := hbehind rfl
      refine ⟨⟨?_, ?_, ?_, ?_⟩, fun hafter => ?_⟩
      · exact List.forall_mem_cons.mpr ⟨hname, hnames⟩
      · exact List.forall_mem_cons.mpr ⟨hstays, hbefore⟩
      · exact happart
      · simpa [literals] using hlast
      · exact List.forall_mem_cons.mpr ⟨hapart hafter, happart⟩
  · rintro ⟨h, hafter⟩
    induction slots generalizing afterSlot literal with
    | nil => exact .last (h.last literal (by simp [literals]))
    | cons slot more ih =>
      obtain ⟨name, behind⟩ := slot
      obtain ⟨hname, hnames⟩ := List.forall_mem_cons.mp h.names
      obtain ⟨hstays, hbefore⟩ := List.forall_mem_cons.mp h.beforeSlot
      have hapart : afterSlot → KeepsApart d literal := fun ha => hafter ha literal (by simp)
      have hbetween : ∀ l ∈ (behind :: more.map Prod.snd).dropLast, KeepsApart d l := h.between
      have hrest : Grammatical d ⟨behind, more⟩ := by
        refine ⟨hnames, hbefore, fun l hl => hbetween l ?_, ?_⟩
        · rw [literals, List.tail_cons] at hl
          cases more with
          | nil => simp at hl
          | cons next more => exact List.mem_cons_of_mem _ hl
        · simpa [literals] using h.last
      exact .slot hstays hapart hname (ih hrest fun _ => hbetween)

theorem grammatical_iff_follows {s : Spelling} :
    s.Grammatical d ↔ Follows d false s.front s.slots := by
  rw [follows_iff]
  simp

/-! ## From the parts to the segments -/

theorem scanLiteral_append {literal : Text} (h : d.opening ∉ literal) (position : Nat)
    (afterSlot : Bool) (read rest : Text) :
    Template.scanLiteral d position afterSlot read (literal ++ rest) =
      Template.scanLiteral d (position + Text.byteSize literal) afterSlot
        (literal.reverse ++ read) rest := by
  induction literal generalizing position read with
  | nil => simp [Text.byteSize]
  | cons c literal ih =>
    obtain ⟨hc, hliteral⟩ : c ≠ d.opening ∧ d.opening ∉ literal := by
      simpa [eq_comm] using h
    rw [List.cons_append, Template.scanLiteral, if_neg hc, ih hliteral]
    simp [Text.byteSize, Nat.add_assoc]

theorem scanName_append {name : Text} (hopening : d.opening ∉ name) (hclosing : d.closing ∉ name)
    (position opened : Nat) (literal read rest : Text) :
    Template.scanName d position opened literal read (name ++ rest) =
      Template.scanName d (position + Text.byteSize name) opened literal
        (name.reverse ++ read) rest := by
  induction name generalizing position read with
  | nil => simp [Text.byteSize]
  | cons c name ih =>
    obtain ⟨ho, hopening⟩ : c ≠ d.opening ∧ d.opening ∉ name := by
      simpa [eq_comm] using hopening
    obtain ⟨hc, hclosing⟩ : c ≠ d.closing ∧ d.closing ∉ name := by
      simpa [eq_comm] using hclosing
    rw [List.cons_append, Template.scanName, if_neg ho, if_neg hc, ih hopening hclosing]
    simp [Text.byteSize, Nat.add_assoc]

/-- What is read after an opening delimiter and before the next one becomes literal
text, and the delimiter with it. -/
theorem scanName_reopened {between : Text} (h : d.closing ∉ between) (position opened : Nat)
    (literal read rest : Text) :
    Template.scanName d position opened literal read (between ++ d.opening :: rest) =
      Template.scanName d (position + Text.byteSize between + d.opening.utf8Size)
        (position + Text.byteSize between)
        (between.reverse ++ (read ++ d.opening :: literal)) [] rest := by
  induction between generalizing position opened literal read with
  | nil => simp [Template.scanName, Text.byteSize]
  | cons c between ih =>
    obtain ⟨hc, hbetween⟩ : c ≠ d.closing ∧ d.closing ∉ between := by simpa [eq_comm] using h
    rw [List.cons_append, Template.scanName]
    by_cases ho : c = d.opening
    · rw [if_pos ho, ih hbetween]
      simp [ho, Text.byteSize, Nat.add_assoc]
    · rw [if_neg ho, if_neg hc, ih hbetween]
      simp [Text.byteSize, Nat.add_assoc]

/-- A literal that leaves nothing closed is read up to the slot behind it, whether
or not the scan takes some of it for the beginning of a slot. -/
theorem scanLiteral_opening {literal : Text} (hstays : StaysOpen d literal) {afterSlot : Bool}
    (hapart : afterSlot → KeepsApart d literal) (position : Nat) (rest : Text) :
    Template.scanLiteral d position afterSlot [] (literal ++ d.opening :: rest) =
      Template.scanName d (position + Text.byteSize literal + d.opening.utf8Size)
        (position + Text.byteSize literal) literal.reverse [] rest := by
  by_cases hmem : d.opening ∈ literal
  · obtain ⟨before, after, rfl, hbefore⟩ := List.eq_append_cons_of_mem hmem
    have hafter : d.closing ∉ after := hstays before after rfl
    have hread : ¬ (afterSlot ∧ before.reverse = []) := by
      rintro ⟨ha, hnil⟩
      have hne := (hapart ha).2
      simp [List.reverse_eq_nil_iff.mp hnil] at hne
    rw [List.append_assoc, scanLiteral_append hbefore, List.cons_append, Template.scanLiteral,
      if_pos rfl, List.append_nil, if_neg hread, scanName_reopened hafter]
    simp [Text.byteSize, Nat.add_assoc]
  · have hread : ¬ (afterSlot ∧ literal.reverse = []) := by
      rintro ⟨ha, hnil⟩
      exact (hapart ha).1 (List.reverse_eq_nil_iff.mp hnil)
    rw [scanLiteral_append hmem, Template.scanLiteral, if_pos rfl, List.append_nil, if_neg hread]

/-- Parts that keep the rules are read as they are. -/
theorem scanLiteral_of_follows {afterSlot : Bool} {literal : Text} {slots : List (Text × Text)}
    (h : Follows d afterSlot literal slots) (position : Nat) :
    Template.scanLiteral d position afterSlot [] (literal ++ slotsWritten d slots) =
      .ok (plainOf literal ++ slotsBody d slots) := by
  induction h generalizing position with
  | last hopening =>
    rw [slotsWritten, scanLiteral_append hopening, Template.scanLiteral]
    simp [slotsBody]
  | @slot afterSlot literal name behind more hstays hapart hname _ ih =>
    obtain ⟨hne, hopening, hclosing⟩ := hname
    rw [slotsWritten, scanLiteral_opening hstays hapart, scanName_append hopening hclosing,
      Template.scanName, if_neg d.distinct.symm, if_pos rfl, if_neg (by simpa using hne), ih]
    simp [Except.map, slotsBody]

/-! ## From the segments to the parts -/

theorem staysOpen_of_not_mem {literal : Text} (h : d.opening ∉ literal) : StaysOpen d literal := by
  rintro before after rfl
  simp at h

theorem StaysOpen.reopened {literal read : Text} (h : StaysOpen d literal)
    (hread : d.closing ∉ read) : StaysOpen d (literal ++ d.opening :: read) := by
  intro before after heq
  have hbehind : d.closing ∉ d.opening :: read := by simpa using ⟨d.distinct.symm, hread⟩
  rcases List.append_eq_append_iff.mp heq with ⟨gap, _, hgap⟩ | ⟨gap, hliteral, hgap⟩
  · intro hclosing
    rw [hgap] at hbehind
    simp [hclosing] at hbehind
  · cases gap with
    | nil =>
      obtain ⟨_, rfl⟩ := List.cons.inj hgap
      exact hread
    | cons c gap =>
      obtain ⟨rfl, rfl⟩ := List.cons.inj hgap
      have hclosing := h before gap hliteral
      simpa [hclosing] using hbehind

theorem KeepsApart.reopened {literal : Text} (h : KeepsApart d literal) (read : Text) :
    KeepsApart d (literal ++ d.opening :: read) := by
  refine ⟨by simp, ?_⟩
  rw [List.head?_append_of_ne_nil _ h.1]
  exact h.2

theorem keepsApart_of_not_mem {literal : Text} (hne : literal ≠ []) (h : d.opening ∉ literal) :
    KeepsApart d literal :=
  ⟨hne, fun hhead => h (List.mem_of_head? hhead)⟩

/-- The text can be taken apart by the rules, and the segments stand for its parts. -/
def Spells (d : Delimiters) (afterSlot : Bool) (text : Text) (segments : List Segment) : Prop :=
  ∃ literal slots, Follows d afterSlot literal slots ∧ text = literal ++ slotsWritten d slots ∧
    segments = plainOf literal ++ slotsBody d slots

theorem spells_literal (afterSlot : Bool) {literal : Text} (h : d.opening ∉ literal) :
    Spells d afterSlot literal (plainOf literal) :=
  ⟨literal, [], .last h, by simp [slotsWritten], by simp [slotsBody]⟩

theorem Spells.slot {afterSlot : Bool} {literal name text : Text} {segments : List Segment}
    (h : Spells d true text segments) (hstays : StaysOpen d literal)
    (hapart : afterSlot → KeepsApart d literal)
    (hname : name ≠ [] ∧ d.opening ∉ name ∧ d.closing ∉ name) :
    Spells d afterSlot (literal ++ d.opening :: (name ++ d.closing :: text))
      (plainOf literal ++ slotNamed d.opening d.closing name :: segments) := by
  obtain ⟨behind, slots, hfollows, rfl, rfl⟩ := h
  exact ⟨literal, (name, behind) :: slots, .slot hstays hapart hname hfollows, rfl, rfl⟩

/-- What a scan finds stands for the parts of the text that is still to be read, put
behind what has been gathered.  Within a slot, what has been gathered are the literal
in front of it, the opening delimiter and the beginning of the name. -/
theorem spells_of_scan (text : Text) :
    (∀ position afterSlot read segments, d.opening ∉ read →
      Template.scanLiteral d position afterSlot read text = .ok segments →
        Spells d afterSlot (read.reverse ++ text) segments) ∧
    (∀ position opened (afterSlot : Bool) literal read segments, StaysOpen d literal.reverse →
      (afterSlot → KeepsApart d literal.reverse) → d.opening ∉ read → d.closing ∉ read →
      Template.scanName d position opened literal read text = .ok segments →
        Spells d afterSlot (literal.reverse ++ d.opening :: (read.reverse ++ text)) segments) := by
  induction text with
  | nil =>
    refine ⟨fun position afterSlot read segments hread h => ?_, fun _ _ _ _ _ _ _ _ _ _ h => ?_⟩
    · obtain rfl := Except.ok.inj h
      rw [List.append_nil]
      exact spells_literal afterSlot (by simpa using hread)
    · cases h
  | cons c text ih =>
    obtain ⟨ihLiteral, ihName⟩ := ih
    constructor
    · intro position afterSlot read segments hread h
      have hclosed : d.opening ∉ read.reverse := by simpa using hread
      rw [Template.scanLiteral] at h
      by_cases ho : c = d.opening
      · rw [if_pos ho] at h
        by_cases hadjacent : afterSlot ∧ read = []
        · rw [if_pos hadjacent] at h
          cases h
        · rw [if_neg hadjacent] at h
          have hapart : afterSlot → KeepsApart d read.reverse := fun ha =>
            keepsApart_of_not_mem (fun hnil => hadjacent ⟨ha, by simpa using hnil⟩) hclosed
          have hfound := ihName _ _ afterSlot _ _ _ (staysOpen_of_not_mem hclosed) hapart
            (by simp) (by simp) h
          simpa [ho] using hfound
      · rw [if_neg ho] at h
        have hmore : d.opening ∉ c :: read := by simpa [eq_comm] using ⟨ho, hread⟩
        simpa using ihLiteral _ _ _ _ hmore h
    · intro position opened afterSlot literal read segments hstays hapart hopening hclosing h
      rw [Template.scanName] at h
      by_cases ho : c = d.opening
      · -- The slot is given up, and the literal now reaches up to this delimiter.
        have hgathered : (read ++ d.opening :: literal).reverse =
            literal.reverse ++ d.opening :: read.reverse := by simp
        have hfound := ihName (position + c.utf8Size) position afterSlot
          (read ++ d.opening :: literal) [] segments
        rw [hgathered] at hfound
        rw [if_pos ho] at h
        simpa [ho] using hfound (hstays.reopened (by simpa using hclosing))
          (fun ha => (hapart ha).reopened _) (by simp) (by simp) h
      · rw [if_neg ho] at h
        by_cases hc : c = d.closing
        · rw [if_pos hc] at h
          by_cases hname : read = []
          · rw [if_pos hname] at h
            cases h
          · rw [if_neg hname] at h
            cases hscan : Template.scanLiteral d (position + c.utf8Size) true [] text with
            | error defect => simp [hscan, Except.map] at h
            | ok more =>
              rw [hscan] at h
              obtain rfl := Except.ok.inj h
              have hbehind := ihLiteral _ _ _ _ (by simp) hscan
              rw [hc]
              exact Spells.slot hbehind hstays hapart
                (by simpa using ⟨hname, hopening, hclosing⟩)
        · rw [if_neg hc] at h
          have hopening' : d.opening ∉ c :: read := by simpa [eq_comm] using ⟨ho, hopening⟩
          have hclosing' : d.closing ∉ c :: read := by simpa [eq_comm] using ⟨hc, hclosing⟩
          simpa using ihName _ _ _ _ _ _ hstays hapart hopening' hclosing' h

/-! ## Compiling -/

theorem compile_of_grammatical {s : Spelling} (h : s.Grammatical d) (name : Text)
    (hne : s.written d ≠ []) :
    Template.compile d name (s.written d) =
      .ok (.counted (.start :: (s.body d ++ [.finishNamed name]))) := by
  have hscan := scanLiteral_of_follows (grammatical_iff_follows.mp h) 0
  rw [Template.compile, if_neg hne, written, hscan]
  rfl

theorem exists_of_compile {name text : Text} {t : Template}
    (h : Template.compile d name text = .ok t) :
    text ≠ [] ∧ ∃ s : Spelling, s.Grammatical d ∧ s.written d = text := by
  rw [Template.compile] at h
  by_cases hnil : text = []
  · rw [if_pos hnil] at h
    cases h
  · rw [if_neg hnil] at h
    refine ⟨hnil, ?_⟩
    cases hscan : Template.scanLiteral d 0 false [] text with
    | error defect => simp [hscan, Except.map] at h
    | ok segments =>
      obtain ⟨front, slots, hfollows, htext, _⟩ :=
        (spells_of_scan text).1 _ _ _ _ (by simp) hscan
      exact ⟨⟨front, slots⟩, grammatical_iff_follows.mpr hfollows, htext.symm⟩

/-! ## What the segments keep of the parts -/

theorem slotNamed_injective {name other : Text}
    (h : slotNamed d.opening d.closing name = slotNamed d.opening d.closing other) :
    name = other := by
  simpa [slotNamed] using h

/-- A literal is what stands before the first slot. -/
theorem plainOf_append_slotsBody_inj {literal other : Text} {slots others : List (Text × Text)}
    (h : plainOf literal ++ slotsBody d slots = plainOf other ++ slotsBody d others) :
    literal = other ∧ slotsBody d slots = slotsBody d others := by
  have hopen : ∀ slots, ∀ s ∈ (slotsBody d slots).head?, s.isLiteral = false := by
    intro slots
    cases slots with
    | nil => simp [slotsBody]
    | cons slot more => simp [slotsBody, slotNamed, isLiteral, literal?]
  by_cases hl : literal = [] <;> by_cases ho : other = []
  · simpa [plainOf, hl, ho] using h
  · have hhead := hopen slots
    simp [plainOf, hl, ho] at h
    simp [h, isLiteral, literal?] at hhead
  · have hhead := hopen others
    simp [plainOf, hl, ho] at h
    simp [← h, isLiteral, literal?] at hhead
  · simpa [plainOf, hl, ho] using h

theorem slotsBody_injective {slots others : List (Text × Text)}
    (h : slotsBody d slots = slotsBody d others) : slots = others := by
  induction slots generalizing others with
  | nil =>
    cases others with
    | nil => rfl
    | cons other others => cases h
  | cons slot slots ih =>
    cases others with
    | nil => cases h
    | cons other others =>
      obtain ⟨name, behind⟩ := slot
      obtain ⟨name', behind'⟩ := other
      obtain ⟨hslot, hmore⟩ := List.cons.inj h
      obtain ⟨rfl, hbody⟩ := plainOf_append_slotsBody_inj hmore
      rw [slotNamed_injective hslot, ih hbody]

theorem body_injective {s other : Spelling} (h : s.body d = other.body d) : s = other := by
  obtain ⟨hfront, hbody⟩ := plainOf_append_slotsBody_inj h
  have hslots := slotsBody_injective hbody
  cases s
  cases other
  simp_all

theorem slotNames_plainOf (text : Text) : Segment.slotNames (plainOf text) = [] := by
  unfold plainOf
  split <;> rfl

theorem slotNames_body (s : Spelling) : Segment.slotNames (s.body d) = s.names := by
  have hslots : ∀ slots, Segment.slotNames (slotsBody d slots) = slots.map Prod.fst := by
    intro slots
    induction slots with
    | nil => rfl
    | cons slot slots ih =>
      obtain ⟨name, behind⟩ := slot
      have hplain := slotNames_plainOf behind
      unfold Segment.slotNames at hplain ih ⊢
      rw [slotsBody, List.filterMap_cons, List.filterMap_append, hplain, ih]
      simp [slotNamed, slotName?, nameWithin_delimited]
  have hplain := slotNames_plainOf s.front
  have hbody := hslots s.slots
  unfold Segment.slotNames at hplain hbody ⊢
  rw [body, List.filterMap_append, hplain, hbody]
  rfl

theorem flatMap_shown_body (s : Spelling) : (s.body d).flatMap shown = s.written d := by
  have hslots : ∀ slots, (slotsBody d slots).flatMap shown = slotsWritten d slots := by
    intro slots
    induction slots with
    | nil => rfl
    | cons slot slots ih =>
      obtain ⟨name, behind⟩ := slot
      rw [slotsBody, slotsWritten, List.flatMap_cons, List.flatMap_append, ih,
        flatMap_plainOf shown rfl]
      simp [slotNamed, shown]
  rw [body, written, List.flatMap_append, hslots, flatMap_plainOf shown rfl]
  rfl

end Spelling

/-- A text compiles if and only if it can be taken apart by the rules.  There is one
way to do so, and the template is made of its parts: nothing of the text is lost. -/
theorem Template.compile_spelled (d : Delimiters) (name text : Text) :
    ((∃ t, compile d name text = .ok t) ↔
      text ≠ [] ∧ ∃ s : Spelling, s.Grammatical d ∧ s.written d = text) ∧
    ∀ s : Spelling, s.Grammatical d → s.written d = text →
      (∀ other : Spelling, other.Grammatical d → other.written d = text → other = s) ∧
      ∀ t, compile d name text = .ok t →
        t.segments = .start :: (s.body d ++ [.finishNamed name]) ∧
        t.slotCount = s.names.length ∧ t.slotNames = s.names ∧
        t.segments.tail.dropLast.flatMap shown = text := by
  refine ⟨⟨?_, ?_⟩, fun s hs hwritten => ⟨fun other ho hother => ?_, fun t ht => ?_⟩⟩
  · intro h
    obtain ⟨t, ht⟩ := h
    exact Spelling.exists_of_compile ht
  · intro h
    obtain ⟨hne, s, hs, rfl⟩ := h
    exact ⟨_, Spelling.compile_of_grammatical hs name hne⟩
  · have hscan := Spelling.scanLiteral_of_follows (Spelling.grammatical_iff_follows.mp hs) 0
    have hscanOther := Spelling.scanLiteral_of_follows (Spelling.grammatical_iff_follows.mp ho) 0
    have hsame : other.front ++ Spelling.slotsWritten d other.slots =
        s.front ++ Spelling.slotsWritten d s.slots := hother.trans hwritten.symm
    rw [hsame, hscan] at hscanOther
    exact Spelling.body_injective (Except.ok.inj hscanOther).symm
  · have hne := (Spelling.exists_of_compile ht).1
    have hcompile := Spelling.compile_of_grammatical hs name (by rwa [hwritten])
    rw [hwritten, ht] at hcompile
    obtain rfl := Except.ok.inj hcompile
    have hnames : Template.slotNames (.counted (.start :: (s.body d ++ [.finishNamed name]))) =
        s.names := by
      have hbody := Spelling.slotNames_body (d := d) s
      unfold Segment.slotNames at hbody
      rw [Template.slotNames, Template.counted, Segment.slotNames, List.filterMap_cons,
        List.filterMap_append, hbody]
      exact List.append_nil _
    have hcount := length_slotNames (.start :: (s.body d ++ [.finishNamed name]))
    refine ⟨rfl, ?_, hnames, ?_⟩
    · rw [← hnames]
      exact hcount.symm
    · simp only [Template.counted, List.tail_cons, List.dropLast_concat]
      rw [Spelling.flatMap_shown_body, hwritten]

/-- A closing delimiter that closes nothing and an opening one that is given up. -/
theorem Template.compile_spelled_of_reopened :
    let s : Spelling := ⟨['a', '\x7d', '\x7b', 'b'], [(['é'], ['/']), (['x'], ['\x7d'])]⟩
    (∃ t, compile .braces ['n'] (s.written .braces) = .ok t ∧ t.slotNames = [['é'], ['x']] ∧
        t.segments.tail.dropLast.flatMap shown = s.written .braces) ∧
      ∀ other : Spelling, other.Grammatical .braces →
        other.written .braces = s.written .braces → other = s := by
  intro s
  have hs : s.Grammatical .braces := by
    have hfront : Spelling.StaysOpen .braces ['a', '\x7d'] :=
      Spelling.staysOpen_of_not_mem (by decide)
    have hread : Delimiters.braces.closing ∉ ['b'] := by decide
    refine Spelling.grammatical_iff_follows.mpr (.slot (hfront.reopened hread) nofun (by decide) ?_)
    refine .slot (Spelling.staysOpen_of_not_mem (by decide)) ?_ (by decide) (.last (by decide))
    exact fun _ => ⟨by decide, by decide⟩
  obtain ⟨hiff, hparts⟩ := compile_spelled .braces ['n'] (s.written .braces)
  obtain ⟨hunique, hmade⟩ := hparts s hs rfl
  obtain ⟨t, ht⟩ := hiff.mpr ⟨by decide, s, hs, rfl⟩
  obtain ⟨_, _, hnames, hshown⟩ := hmade t ht
  exact ⟨⟨t, ht, hnames, hshown⟩, hunique⟩

end RouteTemplates
