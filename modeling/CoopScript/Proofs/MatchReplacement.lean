import CoopScript.Machine.Dispatch
import CoopScript.Proofs.LibraryQuestions
import CoopScript.Proofs.MatchSequence

/-! Substitution by the matches that an iteration goes through. A substitution has a loop of its own,
and the two are compared at every look at the text. So the first matches of the iteration are the
ones that are replaced, and everything between them is kept: a character that is passed over, the
text before a match, and what is left at the end or at the limit. -/

namespace CoopScript

open Pattern

section Slices

variable {text : Array Char} {a b c : Nat}

end Slices

/-- The text from a position on, with other texts in the places of matches. -/
def splice (text : Array Char) (position : Nat) : List (Found × String) → String
  | [] => sliceText text position text.size
  | (found, inserted) :: rest => sliceText text position found.start ++ inserted ++ splice text found.stop rest

namespace Replacement

/-- The value that asks for a replacement of this kind. -/
def value : Replacement → Value
  | template form => .str (String.ofList form)
  | lookup table => .table table
  | call function => .function function

/-- What takes the place of a match, given what was answered for it. -/
def inserted (r : Replacement) (text : Array Char) (found : Found) (answer : List Value) : String :=
  let whole := sliceText text found.start found.stop
  match r with
  | template form => Substitution.expand whole (found.captures text) form
  | lookup _ | call _ => ((answer.headD .nil).asText?).getD whole

/-- The text from a position on, with these matches replaced by what the answers say. -/
def outcome (r : Replacement) (text : Array Char) (position : Nat) (answers : Nat → List Value) (chosen : List Found) :
    String :=
  splice text position (chosen.mapIdx fun i found => (found, r.inserted text found (answers i)))

variable {r : Replacement} {text : Array Char} {found : Found} {chosen : List Found} {position : Nat}
  {answer : List Value} {answers : Nat → List Value}

end Replacement

namespace Substitution

variable {s : Substitution} {found : Found} {matched : List Found} {answers : Nat → List Value}

/-- Where an iteration would stand. -/
def cursor (s : Substitution) : Cursor := ⟨s.subject, s.search, s.position, s.last⟩

/-- How the work goes on past a match. -/
def follow (s : Substitution) (captures : List Value) (fuel : Nat) : Next :=
  match s.replacement with
  | .template text => run { s with output := s.output ++ expand s.whole captures text } fuel
  | .lookup table => .lookup table (captures.headD .nil) s
  | .call function => .call function captures s

/-- The results if these are the matches that are still to be replaced. -/
def delivered (s : Substitution) (answers : Nat → List Value) (chosen : List Found) : List Value :=
  [.str (s.output ++ s.replacement.outcome s.subject s.position answers chosen), Strings.intValue (s.count + chosen.length)]

/-- The state past a match, with what takes its place in the output. -/
def replaced (s : Substitution) (found : Found) (answer : List Value) : Substitution :=
  { s.past found with output := (s.past found).output ++ s.replacement.inserted s.subject found answer }

/-- The action of a substitution that has come this far. -/
def Next.action : Next → Action
  | .finished results => .ret results
  | .lookup table key s => .index (.table table) key (.substitution s)
  | .call function captures s => .call (.function function) captures 0 (.substitution s)

end Substitution

namespace Pattern

variable {search : Searcher} {s : String} {replacement : Replacement} {answers : Nat → List Value}
  {matched chosen : List Found}

/-- A substitution in a string at its start. Without a limit of its own it has the largest. -/
def Searcher.substitution (search : Searcher) (s : String) (replacement : Replacement) (limit : Option Int64) :
    Substitution :=
  { subject := s.toList.toArray, search, replacement, limit := (limit.getD Int64.maxValue).toInt }

open Arguments in
theorem start_eq {pattern : String} {program : Program} (read : Strings.pattern pattern = .ok program)
    (replacement : Replacement) (limit : Option Int64) :
    Substitution.start ([.str s, .str pattern, replacement.value] ++ limit.toList.map .int) =
      .ok (Searcher.substitution program.search? s replacement limit) := by
  simp only [Substitution.start, reading, StateT.run, bind, StateT.bind, Except.bind, liftM, monadLift,
    MonadLift.monadLift, StateT.lift, List.cons_append, nextText_first, nextText_second, read]
  cases replacement with
  | lookup | call => cases limit <;> rfl
  | template form =>
    obtain ⟨text, rfl⟩ : ∃ text : String, form = text.toList := ⟨.ofList form, String.toList_ofList.symm⟩
    rw [Replacement.value, String.ofList_toList]
    cases limit <;> rfl

end Pattern

namespace Pattern

end Pattern

end CoopScript
