import Unalias.Text.Basic

/-! What a file holds: text, or bytes that are no text. -/
namespace Unalias

inductive Content
  | text (t : Text)
  | binary (bytes : ByteArray) (not_text : String.fromUTF8? bytes = none)

namespace Content

def ofBytes (bytes : ByteArray) : Content :=
  match h : String.fromUTF8? bytes with
  | some s => .text s.toList
  | none => .binary bytes h

def bytes : Content → ByteArray
  | .text t => (String.ofList t).toUTF8
  | .binary b _ => b

def text? : Content → Option Text
  | .text t => some t
  | .binary _ _ => none

theorem text?_eq_some_iff {c : Content} {t : Text} : c.text? = some t ↔ c = .text t := by
  cases c <;> simp [text?]

end Content
end Unalias
