import Unalias.Disk.Content
import Unalias.Fault
import Unalias.Text.Blank

/-! A terminal that asks a question and reads one line for an answer. -/
namespace Unalias

/-- What has been shown, and the bytes still to be read. A terminal may refuse to show. -/
structure Terminal where
  input : List UInt8
  shown : String
  refusal? : Option Fault

namespace Terminal

def newline : UInt8 := 10

/-- The first line with its newline, and what follows it. -/
def readLine (input : List UInt8) : List UInt8 × List UInt8 :=
  let line := input.takeWhile (· ≠ newline)
  match input.dropWhile (· ≠ newline) with
  | [] => (line, [])
  | n :: rest => (line ++ [n], rest)

/-- Only `y` and `yes` agree, in either case and with blanks around them. -/
def agrees (line : Text) : Bool :=
  let word := (Text.trim line).map Char.toLower
  word = ['y'] || word = ['y', 'e', 's']

def prompt (question : String) : String := question ++ " [y/N] "

/-- Asks, and consumes one line, also one that is no text. -/
def confirm (t : Terminal) (question : String) : Except Fault Bool × Terminal :=
  match t.refusal? with
  | some f => (.error f, t)
  | none =>
    let (line, rest) := readLine t.input
    let answer := match (Content.ofBytes ⟨line.toArray⟩).text? with
      | some text => .ok (agrees text)
      | none => .error .notText
    (answer, { t with input := rest, shown := t.shown ++ prompt question })

end Terminal
end Unalias
