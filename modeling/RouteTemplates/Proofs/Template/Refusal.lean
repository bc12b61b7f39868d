import Mathlib.Data.List.Induction
import RouteTemplates.Proofs.Template.Spelling

/-!
# What a text is refused for

A scan that fails gives a position and a reason.  To say what stands there one has to know
how the scan came there, so the scan is followed here character by character, with what it
has in hand between two of them.  Each text has either been read to its end, with some
segments made and something in hand, or there is a first character that cannot be read.

What has been read decides whether the next character can be read, and what comes behind
has no part in it.  So the report of a slot that opens too early or has no name holds for
all texts with the same beginning.  A slot that is never closed is found at the end only,
and a name and a closing delimiter are all that is missing then.
-/

namespace RouteTemplates

theorem Except.map_nil_append {α ε : Type} (x : Except ε (List α)) :
    x.map ([] ++ ·) = x := by
  cases x <;> rfl

theorem Except.map_append_map {α ε : Type} (first more : List α) (x : Except ε (List α)) :
    (x.map (more ++ ·)).map (first ++ ·) = x.map (first ++ more ++ ·) := by
  cases x <;> simp [Except.map]

open Segment

namespace Template

/-- What a scan has in hand between two characters.  Within a slot this is the literal in
front of it, the byte where it opened and the beginning of its name.  Texts are held
backwards. -/
inductive ScanState
  | outside (afterSlot : Bool) (gathered : Text)
  | inside (opened : Nat) (gathered name : Text)

namespace ScanState

variable (d : Delimiters) (position : Nat)

/-- The scan of the rest of a text. -/
def resume : ScanState → Text → Except Defect (List Segment)
  | .outside afterSlot gathered => scanLiteral d position afterSlot gathered
  | .inside opened gathered name => scanName d position opened gathered name

/-- What reading a character makes and leaves in hand. -/
def step : ScanState → Char → Except Defect (List Segment × ScanState)
  | .outside afterSlot gathered, c =>
    if c = d.opening then
      if afterSlot ∧ gathered = [] then .error (.adjacentSlots position)
      else .ok ([], .inside position gathered [])
    else .ok ([], .outside afterSlot (c :: gathered))
  | .inside opened gathered name, c =>
    if c = d.opening then .ok ([], .inside position (name ++ d.opening :: gathered) [])
    else if c = d.closing then
      if name = [] then .error (.unnamedSlot position)
      else
        .ok (plainOf gathered.reverse ++ [.slotNamed d.opening d.closing name.reverse],
          .outside true [])
    else .ok ([], .inside opened gathered (c :: name))

/-- Behind a slot the slot is the last segment made, and within one the text read ends
with its opening delimiter and the beginning of its name. -/
def Fits (read : Text) (made : List Segment) : ScanState → Prop
  | .outside afterSlot _ => afterSlot → ∃ body written, made = body ++ [.slot written]
  | .inside opened _ name => ∃ front, read = front ++ d.opening :: name.reverse ∧
      Text.byteSize front = opened ∧ d.opening ∉ name ∧ d.closing ∉ name

theorem resume_cons (state : ScanState) (c : Char) (text : Text) :
    state.resume d position (c :: text) =
      (state.step d position c).bind fun (made, next) =>
        (next.resume d (position + c.utf8Size) text).map (made ++ ·) := by
  cases state with
  | outside afterSlot gathered =>
    rw [resume, scanLiteral, step]
    split
    · split
      · rfl
      · exact (Except.map_nil_append _).symm
    · exact (Except.map_nil_append _).symm
  | inside opened gathered name =>
    rw [resume, scanName, step]
    split
    · exact (Except.map_nil_append _).symm
    · split
      · split
        · rfl
        · simp [Except.bind, resume]
      · exact (Except.map_nil_append _).symm

end ScanState

/-- The text has been read from the beginning, and this is what was made and what is left
in hand. -/
inductive Reads (d : Delimiters) : Text → List Segment → ScanState → Prop
  | nothing : Reads d [] [] (.outside false [])
  | char {read : Text} {made more : List Segment} {state next : ScanState} {c : Char} :
      Reads d read made state → state.step d (Text.byteSize read) c = .ok (more, next) →
      Reads d (read ++ [c]) (made ++ more) next

section

variable {d : Delimiters} {read : Text} {made : List Segment} {state : ScanState}

/-- A scan of any text that begins so comes by this state. -/
theorem Reads.scan_append (h : Reads d read made state) (rest : Text) :
    scanLiteral d 0 false [] (read ++ rest) =
      (state.resume d (Text.byteSize read) rest).map (made ++ ·) := by
  induction h generalizing rest with
  | nothing => exact (Except.map_nil_append _).symm
  | @char read made more state next c _ hstep ih =>
    have hsize : Text.byteSize (read ++ [c]) = Text.byteSize read + c.utf8Size := by
      simp [Text.byteSize]
    rw [List.append_assoc, List.singleton_append, ih, ScanState.resume_cons, hstep, hsize]
    exact Except.map_append_map _ _ _

theorem Reads.scan_eq_error (h : Reads d read made state) {c : Char} {defect : Defect}
    (hstep : state.step d (Text.byteSize read) c = .error defect) (rest : Text) :
    scanLiteral d 0 false [] (read ++ c :: rest) = .error defect := by
  rw [h.scan_append, ScanState.resume_cons, hstep]
  rfl

theorem Reads.fits (h : Reads d read made state) : state.Fits d read made := by
  induction h with
  | nothing => exact nofun
  | @char read made more state next c _ hstep ih =>
    cases state with
    | outside afterSlot gathered =>
      rw [ScanState.step] at hstep
      split at hstep
      · rename_i ho
        split at hstep
        · cases hstep
        · obtain ⟨rfl, rfl⟩ := Prod.mk.inj (Except.ok.inj hstep)
          exact ⟨read, by rw [ho]; rfl, rfl, by simp, by simp⟩
      · obtain ⟨rfl, rfl⟩ := Prod.mk.inj (Except.ok.inj hstep)
        rw [List.append_nil]
        exact ih
    | inside opened gathered name =>
      rw [ScanState.step] at hstep
      split at hstep
      · rename_i ho
        obtain ⟨rfl, rfl⟩ := Prod.mk.inj (Except.ok.inj hstep)
        exact ⟨read, by rw [ho]; rfl, rfl, by simp, by simp⟩
      · rename_i ho
        split at hstep
        · split at hstep
          · cases hstep
          · obtain ⟨rfl, rfl⟩ := Prod.mk.inj (Except.ok.inj hstep)
            intro _
            exact ⟨made ++ plainOf gathered.reverse, _, (List.append_assoc _ _ _).symm⟩
        · rename_i hc
          obtain ⟨rfl, rfl⟩ := Prod.mk.inj (Except.ok.inj hstep)
          obtain ⟨front, hread, hopened, hopening, hclosing⟩ := ih
          refine ⟨front, ?_, hopened, ?_, ?_⟩
          · rw [hread]
            simp
          · simpa [eq_comm] using ⟨ho, hopening⟩
          · simpa [eq_comm] using ⟨hc, hclosing⟩

/-- A text is read to its end, or there is a first character that cannot be read. -/
theorem exists_reads (d : Delimiters) (text : Text) :
    (∃ made state, Reads d text made state) ∨
      ∃ read c rest made state defect, text = read ++ c :: rest ∧ Reads d read made state ∧
        state.step d (Text.byteSize read) c = .error defect := by
  induction text using List.reverseRecOn with
  | nil => exact .inl ⟨_, _, .nothing⟩
  | append_singleton text c ih =>
    rcases ih with ⟨made, state, hreads⟩ | ⟨read, first, rest, made, state, defect, rfl, h⟩
    · cases hstep : state.step d (Text.byteSize text) c with
      | ok result => exact .inl ⟨_, _, hreads.char hstep⟩
      | error defect => exact .inr ⟨text, c, [], made, state, defect, rfl, hreads, hstep⟩
    · exact .inr ⟨read, first, rest ++ [c], made, state, defect, by simp, h⟩

/-! ## Compiling -/

theorem compile_eq {text : Text} (h : text ≠ []) (name : Text) :
    compile d name text = (scanLiteral d 0 false [] text).map fun body =>
      counted (.start :: (body ++ [.finishNamed name])) := by
  rw [compile, if_neg h]

/-- A text that has been read outside of a slot compiles. -/
theorem Reads.compile_outside {afterSlot : Bool} {gathered : Text}
    (h : Reads d read made (.outside afterSlot gathered)) (hread : read ≠ []) (name : Text) :
    compile d name read =
      .ok (counted (.start :: (made ++ plainOf gathered.reverse ++ [.finishNamed name]))) := by
  have hscan := h.scan_append []
  rw [List.append_nil] at hscan
  rw [compile_eq hread, hscan]
  rfl

theorem Reads.compile_inside {opened : Nat} {gathered slot : Text}
    (h : Reads d read made (.inside opened gathered slot)) (hread : read ≠ []) (name : Text) :
    compile d name read = .error (.unclosedSlot opened) := by
  have hscan := h.scan_append []
  rw [List.append_nil] at hscan
  rw [compile_eq hread, hscan]
  rfl

/-- More of a name and a closing delimiter complete a text that ends within a slot. -/
theorem Reads.compile_closed {opened : Nat} {gathered slot more : Text}
    (h : Reads d read made (.inside opened gathered slot)) (hmore : more ≠ [])
    (hopening : d.opening ∉ more) (hclosing : d.closing ∉ more) (name : Text) :
    ∃ t, compile d name (read ++ (more ++ [d.closing])) = .ok t := by
  have hname : more.reverse ++ slot ≠ [] := by simp [hmore]
  rw [compile_eq (by simp), h.scan_append, ScanState.resume,
    Spelling.scanName_append hopening hclosing, scanName, if_neg d.distinct.symm, if_pos rfl,
    if_neg hname, scanLiteral]
  exact ⟨_, rfl⟩

theorem Reads.compile_eq_error (h : Reads d read made state) {c : Char} {defect : Defect}
    (hstep : state.step d (Text.byteSize read) c = .error defect) (name rest : Text) :
    compile d name (read ++ c :: rest) = .error defect := by
  rw [compile_eq (by simp), h.scan_eq_error hstep]
  rfl

end

/-- What the report of a refused text says of the text.  The position is always that of
one of its characters.

The first two reports depend on the text up to that character only: with any other end,
and under any name, the text is refused for the same.  Before the character there is a
text that compiles and ends with a slot, or an opening delimiter.  In the third the
character is the last opening delimiter, nothing is closed behind it, and the text
compiles once a name is completed and closed. -/
inductive RefusedFor (d : Delimiters) (text : Text) : Defect → Prop
  | adjacentSlots {before after : Text} : text = before ++ d.opening :: after →
      (∀ name, ∃ t body written, compile d name before = .ok t ∧
        t.segments = .start :: (body ++ [.slot written, .finishNamed name])) →
      (∀ name other, compile d name (before ++ d.opening :: other) =
        .error (.adjacentSlots (Text.byteSize before))) →
      RefusedFor d text (.adjacentSlots (Text.byteSize before))
  | unnamedSlot {before after : Text} : text = before ++ d.closing :: after →
      (∃ front, before = front ++ [d.opening]) →
      (∀ name other, compile d name (before ++ d.closing :: other) =
        .error (.unnamedSlot (Text.byteSize before))) →
      RefusedFor d text (.unnamedSlot (Text.byteSize before))
  | unclosedSlot {before after : Text} : text = before ++ d.opening :: after →
      d.opening ∉ after → d.closing ∉ after →
      (∀ name more, more ≠ [] → d.opening ∉ more → d.closing ∉ more →
        ∃ t, compile d name (text ++ (more ++ [d.closing])) = .ok t) →
      RefusedFor d text (.unclosedSlot (Text.byteSize before))

/-- A character that cannot be read is an opening delimiter right behind a slot or a
closing one right behind an opening one. -/
theorem Reads.refusedFor {d : Delimiters} {read rest : Text} {made : List Segment}
    {state : ScanState} {c : Char} {defect : Defect} (h : Reads d read made state)
    (hstep : state.step d (Text.byteSize read) c = .error defect) :
    RefusedFor d (read ++ c :: rest) defect := by
  have hsame := h.compile_eq_error hstep
  cases state with
  | outside afterSlot gathered =>
    rw [ScanState.step] at hstep
    split at hstep
    · rename_i ho
      split at hstep
      · rename_i hbehind
        obtain ⟨hafter, rfl⟩ := hbehind
        obtain rfl := Except.error.inj hstep
        subst ho
        obtain ⟨body, written, rfl⟩ := h.fits hafter
        have hread : read ≠ [] := by
          rintro rfl
          have hscan := h.scan_append []
          simp [scanLiteral, ScanState.resume, Except.map, plainOf] at hscan
        refine .adjacentSlots rfl (fun name => ⟨_, body, written, h.compile_outside hread name, ?_⟩)
          hsame
        simp [counted, plainOf]
      · cases hstep
    · cases hstep
  | inside opened gathered name =>
    rw [ScanState.step] at hstep
    split at hstep
    · cases hstep
    · split at hstep
      · rename_i hc
        split at hstep
        · rename_i hname
          obtain rfl := Except.error.inj hstep
          subst hc hname
          obtain ⟨front, hfront, _⟩ := h.fits
          exact .unnamedSlot rfl ⟨front, hfront⟩ hsame
        · cases hstep
      · cases hstep

/-- A text that is refused, and is not empty, is refused for a slot that opens where another
closed, for one without a name, or for one that is never closed. -/
theorem compile_refused {d : Delimiters} {name text : Text} {defect : Defect}
    (hne : text ≠ []) (h : compile d name text = .error defect) : RefusedFor d text defect := by
  rcases exists_reads d text with ⟨made, state, hreads⟩ |
    ⟨read, c, rest, made, state, found, rfl, hreads, hstep⟩
  · cases state with
    | outside afterSlot gathered =>
      rw [hreads.compile_outside hne] at h
      cases h
    | inside opened gathered slot =>
      rw [hreads.compile_inside hne] at h
      obtain rfl := Except.error.inj h
      obtain ⟨front, hfront, rfl, hopening, hclosing⟩ := hreads.fits
      exact .unclosedSlot hfront (by simpa using hopening) (by simpa using hclosing)
        fun name more hmore ho hc => hreads.compile_closed hmore ho hc name
  · rw [hreads.compile_eq_error hstep] at h
    obtain rfl := Except.error.inj h
    exact hreads.refusedFor hstep

/-- Delimiters of two bytes, an opening one that is given up, and closing ones that close
nothing. -/
theorem compile_refused_of_guillemets :
    let d : Delimiters := ⟨'«', '»', by decide⟩
    let adjacent : Text := ['é', '«', 'a', '»', '«', '»']
    let unnamed : Text := ['»', '«', 'a', '«', '»', '«']
    let unclosed : Text := ['«', 'a', '»', '/', '«', 'b', '«', 'é']
    (compile d [] adjacent = .error (.adjacentSlots 7) ∧
      RefusedFor d adjacent (.adjacentSlots 7)) ∧
    (compile d [] unnamed = .error (.unnamedSlot 7) ∧
      RefusedFor d unnamed (.unnamedSlot 7)) ∧
    compile d [] unclosed = .error (.unclosedSlot 9) ∧
      RefusedFor d unclosed (.unclosedSlot 9) := by
  intro d adjacent unnamed unclosed
  have hadjacent : compile d [] adjacent = .error (.adjacentSlots 7) := rfl
  have hunnamed : compile d [] unnamed = .error (.unnamedSlot 7) := rfl
  have hunclosed : compile d [] unclosed = .error (.unclosedSlot 9) := rfl
  exact ⟨⟨hadjacent, compile_refused (by decide) hadjacent⟩,
    ⟨hunnamed, compile_refused (by decide) hunnamed⟩,
    hunclosed, compile_refused (by decide) hunclosed⟩

end Template
end RouteTemplates
