import CoopScript.Library.Strings

/-! Substitution of the matches in a string. Replacements that a table or a function supplies
come from outside, so a substitution is a state that asks for one and goes on when it is
given. -/

namespace CoopScript

inductive Replacement where
  /-- A text in which a percent sign and a digit stand for a capture. -/
  | template (text : List Char)
  /-- The value of a table under the first capture. -/
  | lookup (table : TableId)
  /-- The result of a function of the captures. -/
  | call (function : FunctionId)
  deriving DecidableEq

structure Substitution where
  subject : Array Char
  search : Pattern.Searcher
  replacement : Replacement
  limit : Int
  count : Nat := 0
  /-- Everything before this character is in the output. -/
  position : Nat := 0
  last : Option Nat := none
  output : String := ""
  /-- The match that waits for its replacement. -/
  whole : String := ""

namespace Substitution

/-- The template with captures put in. An absent capture is empty, and a digit beyond the
captures stands for itself, like any other character after a percent sign. -/
def expand (whole : String) (captures : List Value) : List Char → String
  | [] => ""
  | ['%'] => "%"
  | '%' :: d :: rest =>
    let text :=
      if d = '0' then whole
      else if '1' ≤ d && d ≤ '9' then
        match captures[d.toNat - 49]? with
        | some capture => capture.asText?.getD ""
        | none => d.toString
      else d.toString
    text ++ expand whole captures rest
  | c :: rest => c.toString ++ expand whole captures rest

/-- The dialogue of a substitution with whoever supplies replacements. -/
inductive Next where
  | finished (results : List Value)
  | lookup (table : TableId) (key : Value) (state : Substitution)
  | call (function : FunctionId) (captures : List Value) (state : Substitution)

/-- What a look at the rest of the text comes to. -/
inductive Sight where
  | nothing
  /-- There is an empty match where the last one ended; a character is passed over. -/
  | passed (c : Char)
  | matched (found : Pattern.Found)

def sight (s : Substitution) : Sight :=
  if (s.count : Int) < s.limit then
    match s.search s.subject s.position with
    | none => .nothing
    | some found =>
      if found.start = found.stop && s.last = some found.stop then
        match s.subject[s.position]? with
        | some c => .passed c
        | none => .nothing
      else .matched found
  else .nothing

/-- The state past a character that is kept. -/
def keep (s : Substitution) (c : Char) : Substitution :=
  { s with output := s.output.push c, position := s.position + 1 }

/-- The state past a match, with the text before the match copied. -/
def past (s : Substitution) (found : Pattern.Found) : Substitution :=
  { s with
    count := s.count + 1
    output := s.output ++ Pattern.sliceText s.subject s.position found.start
    position := found.stop
    last := some found.stop
    whole := Pattern.sliceText s.subject found.start found.stop }

def results (s : Substitution) : List Value :=
  [.str (s.output ++ Pattern.sliceText s.subject s.position s.subject.size),
    Strings.intValue s.count]

/-- Goes on to the next replacement that has to be asked for. -/
def run (s : Substitution) : Nat → Next
  | 0 => .finished s.results
  | fuel + 1 =>
    match s.sight with
    | .nothing => .finished s.results
    | .passed c => run (s.keep c) fuel
    | .matched found =>
      let captures := found.captures s.subject
      let s := s.past found
      match s.replacement with
      | .template text => run { s with output := s.output ++ expand s.whole captures text } fuel
      | .lookup table => .lookup table (captures.headD .nil) s
      | .call function => .call function captures s

/-- No text takes more rounds than this. -/
def advance (s : Substitution) : Next := s.run (2 * s.subject.size + 3)

/-- Takes the replacement that was asked for: text is used, a false value keeps the match. -/
def collect (s : Substitution) (value : Value) : Except ScriptError Substitution :=
  match value.asText? with
  | some text => .ok { s with output := s.output ++ text }
  | none =>
    if value.isTruthy then .error (.invalidReplacement value.kind)
    else .ok { s with output := s.output ++ s.whole }

open Arguments in
def start (args : List Value) : Except ScriptError Substitution :=
  reading "gsub" args do
    let s ← nextText
    let program ← Strings.pattern (← nextText)
    let v ← nextOrNil
    let replacement ←
      match v with
      | .table t => pure (.lookup t)
      | .function f => pure (.call f)
      | v =>
        match v.asText? with
        | some text => pure (.template text.toList)
        | none => throw ((← get).bad 3 .noReplacement)
    let limit ← optInt Int64.maxValue
    return { subject := s.toList.toArray, search := program.search?, replacement, limit := limit.toInt }

/-- The number of bytes before the position. -/
def byteStart (s : Substitution) : Nat := Strings.byteOffset s.subject s.position

end Substitution

end CoopScript
