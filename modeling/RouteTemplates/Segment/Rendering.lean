import RouteTemplates.Segment.Basic
import RouteTemplates.Text.Quoted

/-!
# How segments are shown

There are two written forms.  The description of a segment tells all there is
to know of it, sizes and captured values included.  The key leaves out what
differs between a template and its matches, so both have one key.
-/

namespace RouteTemplates

namespace Segment

def startWord : Text := "START".toList

/-- How the end of a template is shown, in either form. -/
def renderFinish : Option Text → Text
  | none => "END".toList
  | some name => "END(".toList ++ Text.quoted name ++ [')']

def roleWord : LiteralRole → Text
  | .plain => "Const".toList
  | .separator => "Separator".toList

def slotWord : Text := "Parameter".toList

def filledWord : Text := "Resolved".toList

/-- The length of a text as a description states it, in bytes. -/
def sizeNote (text : Text) : Text := ", len=".toList ++ Text.ofNat (Text.byteSize text)

/-- The description of a segment. -/
def describe : Segment → Text
  | .start => startWord
  | .finish name => renderFinish name
  | .literal role text =>
    roleWord role ++ ['('] ++ Text.quoted text ++ sizeNote text ++ [')']
  | .slot written => slotWord ++ ['('] ++ Text.quoted written ++ [')']
  | .filled written value =>
    filledWord ++ ['('] ++ Text.quoted (nameWithin written) ++ ['='] ++ Text.quoted value ++
      sizeNote value ++ [')']

/-- The key of a segment. -/
def key : Segment → Text
  | .start => startWord
  | .finish name => renderFinish name
  | .literal role text => roleWord role ++ ['('] ++ Text.quoted text ++ [')']
  | .slot written | .filled written _ =>
    "Param(".toList ++ Text.quoted (nameWithin written) ++ [')']

@[simp]
theorem key_unfilled (s : Segment) : s.unfilled.key = s.key := by
  cases s <;> rfl

/-- Written forms of a row of segments stand one behind the other, an arrow
between each two. -/
def chain (forms : List Text) : Text := ['-', '>'].intercalate forms

end Segment
end RouteTemplates
