import Unalias.Alias.Basic
import Unalias.Text.Blank

/-! The table of rules, longest stem first. Rules with stems of one length keep the order of the
configuration, and the first rule that accepts a name answers for it. Which patterns can be compiled
is for the matching engine to say. -/
namespace Unalias

/-- What becomes of an alias. Only the first target of an alias is used. -/
inductive Verdict
  | excluded (token : Text)
  | untargeted
  | refused
  | kept (rule : Rule)
deriving DecidableEq

namespace Alias

/-- The tokens that count: blanks around a token are no part of it, and an empty one excludes
nothing. -/
def tokens (excluded : List Text) : List Text :=
  (excluded.map Text.trim).filter (· ≠ [])

/- An alias is refused when its pattern cannot be compiled. -/
def judge (compiles : Text → Bool) (base : Path) (tokens : List Text) (a : Alias) : Verdict :=
  match tokens.find? (Text.contains · a.pattern), a.targets with
  | some token, _ => .excluded token
  | none, [] => .untargeted
  | none, first :: _ =>
    if compiles a.pattern then .kept ⟨a.pattern, base.join ⟨stem first⟩⟩ else .refused

end Alias

namespace Verdict

def rule? : Verdict → Option Rule
  | .kept r => some r
  | _ => none

end Verdict

structure Table where
  rules : List Rule
deriving DecidableEq

namespace Table

/-- Whether one rule comes before another: its stem is at least as long, in bytes. -/
def precedes (r s : Rule) : Bool := s.stem.size ≤ r.stem.size

def build (compiles : Text → Bool) (config : Config) (excluded : List Text) : Table :=
  let tokens := Alias.tokens excluded
  let rules := config.aliases.filterMap fun a => (a.judge compiles config.base tokens).rule?
  ⟨rules.mergeSort precedes⟩

def find? (table : Table) (name : Text) : Option Rule := table.rules.find? (·.accepts name)

end Table
end Unalias
