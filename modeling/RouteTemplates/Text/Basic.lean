/-!
# Texts

A text is the list of its characters, so that matching and cutting are recursion
on the data.  Lengths and positions that leave the library are counted in bytes
of UTF-8, and `byteSize` is that count.  A cut always falls between two
characters: a byte count that ends inside one has no cut, which is what
`takeBytes?` says.
-/

namespace RouteTemplates

abbrev Text := List Char

namespace Text

/-- A count in decimal digits. -/
def ofNat (n : Nat) : Text := Nat.toDigits 10 n

/-- The number of bytes the text takes in UTF-8. -/
def byteSize : Text → Nat
  | [] => 0
  | c :: t => c.utf8Size + byteSize t

@[simp]
theorem byteSize_append (s t : Text) : byteSize (s ++ t) = byteSize s + byteSize t := by
  induction s with
  | nil => simp [byteSize]
  | cons c s ih => simp [byteSize, ih, Nat.add_assoc]

@[simp]
theorem byteSize_eq_zero {t : Text} : byteSize t = 0 ↔ t = [] := by
  cases t with
  | nil => simp [byteSize]
  | cons c t =>
    have := c.utf8Size_pos
    simp [byteSize]
    omega

theorem append_of_isPrefixOf? {mark t after : Text} (h : mark.isPrefixOf? t = some after) :
    t = mark ++ after := by
  induction mark generalizing t with
  | nil => exact Option.some.inj h
  | cons p mark ih =>
    cases t with
    | nil => cases h
    | cons c t =>
      change (if p == c then mark.isPrefixOf? t else none) = some after at h
      split at h
      · rename_i hpc
        simp [beq_iff_eq.mp hpc, ih h]
      · cases h

/-- The text before the first occurrence of `mark` and the text after it. -/
def cutAt? (mark : Text) : Text → Option (Text × Text)
  | [] => if mark = [] then some ([], []) else none
  | c :: t =>
    match mark.isPrefixOf? (c :: t) with
    | some after => some ([], after)
    | none => (cutAt? mark t).map fun (before, after) => (c :: before, after)

/-- A cut loses nothing but the mark. -/
theorem append_of_cutAt? {mark t before after : Text} (h : cutAt? mark t = some (before, after)) :
    t = before ++ mark ++ after := by
  induction t generalizing before with
  | nil =>
    simp only [cutAt?] at h
    split at h
    · rename_i hm
      obtain ⟨rfl, rfl⟩ := Prod.mk.inj (Option.some.inj h)
      simp [hm]
    · cases h
  | cons c t ih =>
    simp only [cutAt?] at h
    split at h
    · rename_i rest hp
      obtain ⟨rfl, rfl⟩ := Prod.mk.inj (Option.some.inj h)
      simpa using append_of_isPrefixOf? hp
    · obtain ⟨⟨b, a⟩, hcut, heq⟩ := Option.map_eq_some_iff.mp h
      obtain ⟨rfl, rfl⟩ := Prod.mk.inj heq
      simp [ih hcut]

/-- The leading part of exactly `n` bytes and the rest.  There is none when the
text is shorter or when `n` bytes end inside a character. -/
def takeBytes? : Nat → Text → Option (Text × Text)
  | 0, t => some ([], t)
  | _ + 1, [] => none
  | n + 1, c :: t =>
    if c.utf8Size ≤ n + 1 then
      (takeBytes? (n + 1 - c.utf8Size) t).map fun (taken, rest) => (c :: taken, rest)
    else none

end Text
end RouteTemplates
