import CoopScript.Library.Builtins

/-! The matches that an iteration goes through. Of the search it is only known that what it finds
lies in the text and not before the position it starts from, which holds for the search of every
pattern. An empty match where the last match ended is passed over, so each match ends beyond the one
before, and an iteration comes to an end. -/

namespace CoopScript

namespace Arguments

theorem nextText_first (function s : String) (rest : List Value) :
    nextText ⟨function, .str s :: rest, 0⟩ = .ok (s, ⟨function, .str s :: rest, 1⟩) := rfl

theorem nextText_second (function s : String) (v : Value) (rest : List Value) :
    nextText ⟨function, v :: .str s :: rest, 1⟩ = .ok (s, ⟨function, v :: .str s :: rest, 2⟩) := rfl

end Arguments

namespace Pattern

/-- What is found lies in the text, and not before the position of the search. -/
def Searcher.Bounded (search : Searcher) : Prop :=
  ∀ text position found, search text position = some found →
    position ≤ found.start ∧ found.start ≤ found.stop ∧ found.stop ≤ text.size

section Engine

variable {program : Program} {text : Array Char} {start : Nat} {found : Found}

/-- The way has not left the text, nor gone back before the start. -/
def Way.Within (way : Way) (start : Nat) (text : Array Char) : Prop :=
  start ≤ way.position ∧ way.position ≤ text.size

theorem Way.Within.onward {way : Way} (within : way.Within start text) :
    ∀ next ∈ way.onward program text, next.Within start text := by
  have stays (node : Nat) (slots : List (Nat × Nat)) : Way.Within ⟨node, way.position, slots⟩ start text := within
  unfold Way.onward
  split
  · split
    · next here =>
      have before := (Array.getElem?_eq_some_iff.mp here).1
      split
      · intro next member
        cases List.mem_singleton.mp member
        exact ⟨Nat.le_succ_of_le within.1, before⟩
      · simp
    · simp
  · split
    · simpa using stays _ _
    · simp
  · simpa using ⟨stays _ _, stays _ _⟩
  · simpa using stays _ _
  · simp

end Engine

namespace Cursor

variable {c : Cursor} {found : Found} {matched : List Found} {stop : Nat}

/-- The iteration past a match. -/
def past (c : Cursor) (found : Found) : Cursor := { c with position := found.stop, last := some found.stop }

/-- These are all the matches that are left, in order. -/
inductive Finds : Cursor → List Found → Prop where
  | ended {c : Cursor} (none : c.peek? = none) : Finds c []
  | next {c : Cursor} {found : Found} {rest : List Found} (next : c.peek? = some found)
      (goes : Finds (c.past found) rest) : Finds c (found :: rest)

theorem Finds.unique {other : List Found} (finds : c.Finds matched) (another : c.Finds other) : other = matched := by
  induction finds generalizing other with
  | ended none =>
    cases another with
    | ended => rfl
    | next next => cases none.symm.trans next
  | next next goes ih =>
    cases another with
    | ended none => cases none.symm.trans next
    | next same rest =>
      cases next.symm.trans same
      rw [ih rest]

/-- What is known of a match that is still to come. -/
structure Ahead (c : Cursor) (found : Found) : Prop where
  searched : ∃ position, c.search c.subject position = some found
  after : c.position ≤ found.start
  forward : found.start ≤ found.stop
  inside : found.stop ≤ c.subject.size

theorem next?_ahead (bounded : c.search.Bounded) {fuel : Nat}
    (next : next? c.search c.subject c.position c.last fuel = some found) :
    c.Ahead found ∧ ¬(found.start = found.stop ∧ c.last = some found.stop) := by
  induction fuel generalizing c with
  | zero => cases next
  | succ fuel ih =>
    simp only [next?] at next
    split at next
    · cases next
    · next searched =>
      obtain ⟨after, forward, inside⟩ := bounded _ _ _ searched
      split at next
      · split at next
        · obtain ⟨ahead, fresh⟩ := ih (c := { c with position := c.position + 1 }) bounded next
          exact ⟨{ ahead with after := Nat.le_of_succ_le ahead.after }, fresh⟩
        · cases next
      · next fresh =>
        cases next
        exact ⟨⟨⟨_, searched⟩, after, forward, inside⟩, by simpa using fresh⟩

theorem peek?_ahead (bounded : c.search.Bounded) (next : c.peek? = some found) :
    c.Ahead found ∧ ¬(found.start = found.stop ∧ c.last = some found.stop) := by
  simp only [peek?] at next
  split at next
  · exact next?_ahead bounded next
  · cases next

/-- The last match did not end beyond the position. -/
def Placed (c : Cursor) : Prop := ∀ stop, c.last = some stop → stop ≤ c.position

theorem placed_past : (c.past found).Placed := by
  intro stop ended
  cases ended
  exact Nat.le_refl _

/-- A match where the last one ended would be empty, and those are passed over. -/
theorem peek?_beyond (bounded : c.search.Bounded) (placed : c.Placed) (next : c.peek? = some found)
    (ended : c.last = some stop) : stop < found.stop := by
  obtain ⟨ahead, fresh⟩ := peek?_ahead bounded next
  have before : stop ≤ found.start := Nat.le_trans (placed stop ended) ahead.after
  have forward := ahead.forward
  by_cases same : found.stop = stop
  · exact absurd ⟨by omega, ended.trans (congrArg some same.symm)⟩ fresh
  · omega

/-- How many more matches could be found. -/
def room (c : Cursor) : Nat :=
  match c.last with
  | none => c.subject.size + 1
  | some stop => c.subject.size - stop

theorem Finds.ahead (finds : c.Finds matched) (bounded : c.search.Bounded) : ∀ found ∈ matched, c.Ahead found := by
  induction finds with
  | ended => simp
  | @next c first rest next goes ih =>
    have ahead := (peek?_ahead bounded next).1
    intro found member
    obtain rfl | later := List.mem_cons.mp member
    · exact ahead
    · have more := ih bounded found later
      exact { more with after := Nat.le_trans ahead.after (Nat.le_trans ahead.forward more.after) }

theorem Finds.beyond (finds : c.Finds matched) (bounded : c.search.Bounded) (placed : c.Placed)
    (ended : c.last = some stop) : ∀ found ∈ matched, stop < found.stop := by
  induction finds generalizing stop with
  | ended => simp
  | @next c first rest next goes ih =>
    have beyond := peek?_beyond bounded placed next ended
    intro found member
    obtain rfl | later := List.mem_cons.mp member
    · exact beyond
    · exact Nat.lt_trans beyond (ih bounded placed_past rfl found later)

/-- No two matches overlap, and each ends beyond the ones before it. -/
def Apart (matched : List Found) : Prop := matched.Pairwise fun a b => a.stop ≤ b.start ∧ a.stop < b.stop

theorem Finds.apart (finds : c.Finds matched) (bounded : c.search.Bounded) : Apart matched := by
  induction finds with
  | ended => exact .nil
  | next next goes ih =>
    refine .cons (fun found later => ?_) (ih bounded)
    exact ⟨(goes.ahead bounded found later).after, goes.beyond bounded placed_past rfl found later⟩

/-- The captures that so many calls of an iteration return. -/
def answers : Nat → Cursor → List (List Value)
  | 0, _ => []
  | n + 1, c => c.advance.1 :: answers n c.advance.2

/-- An iteration that is over stays over. -/
theorem answers_over (finished : c.peek? = none) (n : Nat) : c.answers n = List.replicate n [.nil] := by
  induction n generalizing c with
  | zero => rfl
  | succ n ih =>
    have still : { c with position := c.subject.size + 1 : Cursor }.peek? = none :=
      if_neg (Nat.not_succ_le_self c.subject.size)
    simp only [answers, advance, finished]
    rw [ih still, List.replicate_succ]

theorem Finds.answers (finds : c.Finds matched) (n : Nat) :
    c.answers n = (matched.map (·.captures c.subject)).take n ++ List.replicate (n - matched.length) [.nil] := by
  induction finds generalizing n with
  | ended none => simpa using answers_over none n
  | @next c found rest next goes ih =>
    cases n with
    | zero => simp [Cursor.answers]
    | succ n =>
      have moved : c.advance = (found.captures c.subject, c.past found) := by
        simp only [advance, next]
        rfl
      simp only [Cursor.answers, moved, ih]
      simp [past]

end Cursor

/-- An iteration over a string at its start. -/
def Searcher.iteration (search : Searcher) (s : String) : Cursor := { subject := s.toList.toArray, search }

end Pattern

end CoopScript
