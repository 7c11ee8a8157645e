import CoopScript.Proofs.Counterparts

/-! Library functions on counterparts. Those that run to completion tell nothing of a function but
its kind, and substitution and formatting hand functions on without looking at them. So given
counterparts they fail alike or answer with counterparts, from question to question. -/

namespace CoopScript

/-! Functions that run to completion. -/

section Natives

open Arguments

variable {P : Pairing} {args args' : List Value}

private theorem told {vs : List Value} (shared : ∀ v ∈ vs, P.Shares v) :
    Parallel P (Values.Twin P) (pure vs) (pure vs) :=
  .pure (.of_shared shared)

private theorem told_text (s : String) : Parallel P (Values.Twin P) (pure [.str s]) (pure [.str s]) :=
  told (by simp [Pairing.Shares])

/-- What a match captures are texts, and nil for a group that took no part. -/
theorem Pattern.Found.captures_shared (P : Pairing) (found : Pattern.Found) (text : Array Char) :
    ∀ v ∈ found.captures text, P.Shares v := by
  have group (g : Option (Nat × Nat)) : P.Shares (Pattern.groupValue text g) := by
    cases g <;> trivial
  intro v member
  unfold captures at member
  split at member
  · obtain ⟨g, _, rfl⟩ := List.mem_map.mp member
    exact group g
  · rw [List.mem_singleton.mp member]
    trivial

theorem Strings.codes_parallel (count : Nat) : Parallel P Eq (codes count) (codes count) := by
  induction count with
  | zero => exact .pure rfl
  | succ count ih =>
    apply Parallel.nextInt.bind_same
    intro code
    dsimp only
    split
    · apply ih.bind_same
      intro rest
      exact .pure rfl
    · refine Parallel.get.bind fun a b twin => ?_
      rw [twin.badLast]
      exact .throw _

/-- A function of one text. -/
private theorem reading_text (name : String) {answer : String → List Value} (shared : ∀ s, ∀ v ∈ answer s, P.Shares v)
    (twins : Values.Twin P args args') :
    Likewise (Values.Twin P) (reading name args (do return answer (← nextText)))
      (reading name args' (do return answer (← nextText))) := by
  refine Parallel.reading ?_ name twins
  apply Parallel.nextText.bind_same
  intro s
  exact told (shared s)

theorem Builtin.typeOf_twin (twins : Values.Twin P args args') :
    Likewise (Values.Twin P) (typeOf args) (typeOf args') := by
  refine Parallel.reading ?_ "type" twins
  refine Parallel.nextAny.bind fun v v' twin => ?_
  rw [twin.kind]
  exact told_text _

theorem Strings.len_twin (twins : Values.Twin P args args') : Likewise (Values.Twin P) (len args) (len args') :=
  reading_text "len" (by simp [Pairing.Shares, intValue]) twins

theorem Strings.lower_twin (twins : Values.Twin P args args') : Likewise (Values.Twin P) (lower args) (lower args') :=
  reading_text "lower" (by simp [Pairing.Shares]) twins

theorem Strings.upper_twin (twins : Values.Twin P args args') : Likewise (Values.Twin P) (upper args) (upper args') :=
  reading_text "upper" (by simp [Pairing.Shares]) twins

theorem Strings.reverse_twin (twins : Values.Twin P args args') :
    Likewise (Values.Twin P) (reverse args) (reverse args') :=
  reading_text "reverse" (by simp [Pairing.Shares]) twins

theorem Strings.sub_twin (twins : Values.Twin P args args') : Likewise (Values.Twin P) (sub args) (sub args') := by
  refine Parallel.reading ?_ "sub" twins
  apply Parallel.nextText.bind_same
  intro s
  apply (Parallel.optInt 1).bind_same
  intro i
  apply (Parallel.optInt (-1)).bind_same
  intro j
  exact told_text _

theorem Strings.byte_twin (twins : Values.Twin P args args') : Likewise (Values.Twin P) (byte args) (byte args') := by
  refine Parallel.reading ?_ "byte" twins
  apply Parallel.nextText.bind_same
  intro s
  apply (Parallel.optInt 1).bind_same
  intro i
  apply (Parallel.optInt i).bind_same
  intro j
  refine told fun v member => ?_
  obtain ⟨b, _, rfl⟩ := List.mem_map.mp member
  trivial

theorem Strings.char_twin (twins : Values.Twin P args args') : Likewise (Values.Twin P) (char args) (char args') := by
  have count := twins.length_eq
  refine Parallel.reading ?_ "char" twins
  rw [count]
  apply (Strings.codes_parallel _).bind_same
  intro bytes
  exact told_text _

theorem Strings.find_twin (twins : Values.Twin P args args') : Likewise (Values.Twin P) (find args) (find args') := by
  refine Parallel.reading ?_ "find" twins
  apply Parallel.nextText.bind_same
  intro s
  apply Parallel.nextText.bind_same
  intro wanted
  apply (Parallel.optInt 1).bind_same
  intro init
  refine Parallel.nextOrNil.bind fun plain plain' twin => ?_
  rw [twin.isTruthy]
  have bounds (i j : Nat) : ∀ v ∈ [intValue i, intValue j], P.Shares v := by simp [Pairing.Shares, intValue]
  have missing : ∀ v ∈ [Value.nil], P.Shares v := by simp [Pairing.Shares]
  dsimp only
  split
  · exact told missing
  · split
    · split
      · exact told (bounds _ _)
      · exact told missing
    · apply (Parallel.lift _).bind_same
      intro program
      split
      · next found _ =>
        split
        · refine told fun v member => ?_
          rcases List.mem_append.mp member with member | member
          · exact bounds _ _ v member
          · exact found.captures_shared P _ v member
        · exact told (bounds _ _)
      · exact told missing

theorem Strings.firstMatch_twin (twins : Values.Twin P args args') :
    Likewise (Values.Twin P) (firstMatch args) (firstMatch args') := by
  refine Parallel.reading ?_ "match" twins
  apply Parallel.nextText.bind_same
  intro s
  apply Parallel.nextText.bind_same
  intro wanted
  apply (Parallel.lift _).bind_same
  intro program
  apply (Parallel.optInt 1).bind_same
  intro init
  have missing : ∀ v ∈ [Value.nil], P.Shares v := by simp [Pairing.Shares]
  split
  · exact told missing
  · split
    · next found _ => exact told (found.captures_shared P _)
    · exact told missing

theorem Strings.rep_twin (twins : Values.Twin P args args') : Likewise (Values.Twin P) (rep args) (rep args') := by
  refine Parallel.reading ?_ "rep" twins
  apply Parallel.nextText.bind_same
  intro s
  apply Parallel.nextInt.bind_same
  intro n
  apply Parallel.optText.bind_same
  intro separator
  dsimp only
  split
  · exact told_text _
  · split
    · exact .throw _
    · split <;> exact told_text _

theorem Strings.matches?_likewise (twins : Values.Twin P args args') : Likewise Eq (matches? args) (matches? args') := by
  refine Parallel.reading ?_ "gmatch" twins
  apply Parallel.nextText.bind_same
  intro s
  apply Parallel.nextText.bind_same
  intro wanted
  apply (Parallel.lift _).bind_same
  intro program
  exact .pure rfl

end Natives

/-! The dialogues. -/

namespace Replacement

/-- A template is the same, and a table or function has its counterpart. -/
inductive Twin (P : Pairing) : Replacement → Replacement → Prop where
  | template (text : List Char) : Twin P (.template text) (.template text)
  | lookup {t : TableId} (known : P.tables t) : Twin P (.lookup t) (.lookup t)
  | call {f g : FunctionId} (paired : P.functions f g) : Twin P (.call f) (.call g)

theorem Twin.mono {P Q : Pairing} {r r' : Replacement} (within : P.Within Q) (twin : r.Twin P r') : r.Twin Q r' := by
  cases twin with
  | template text => exact .template text
  | lookup known =>
    apply Twin.lookup
    rw [within.tables]
    exact known
  | call paired => exact .call (within.functions _ _ paired)

end Replacement

namespace Substitution

open Arguments

/-- The substitutions are the same but for where their replacements come from. -/
def Twin (P : Pairing) (s t : Substitution) : Prop :=
  ∃ r, t = { s with replacement := r } ∧ s.replacement.Twin P r

variable {P Q : Pairing} {s t : Substitution}

theorem Twin.mono (within : P.Within Q) : s.Twin P t → s.Twin Q t := by
  rintro ⟨r, rfl, twin⟩
  exact ⟨r, rfl, twin.mono within⟩

/-- The same is asked for, or both are finished with the same. -/
inductive Next.Twin (P : Pairing) : Next → Next → Prop where
  | finished {results : List Value} (shared : ∀ v ∈ results, P.Shares v) :
      Next.Twin P (.finished results) (.finished results)
  | lookup {table : TableId} {key : Value} {s t : Substitution} (known : P.tables table) (shared : P.Shares key)
      (twin : s.Twin P t) : Next.Twin P (.lookup table key s) (.lookup table key t)
  | call {f g : FunctionId} {captures : List Value} {s t : Substitution} (paired : P.functions f g)
      (shared : ∀ v ∈ captures, P.Shares v) (twin : s.Twin P t) : Next.Twin P (.call f captures s) (.call g captures t)

theorem run_twin (twin : s.Twin P t) (fuel : Nat) : Next.Twin P (s.run fuel) (t.run fuel) := by
  have finished (s : Substitution) : ∀ v ∈ s.results, P.Shares v := by simp [results, Pairing.Shares, Strings.intValue]
  induction fuel generalizing s t with
  | zero =>
    obtain ⟨r, rfl, _⟩ := twin
    exact .finished (finished s)
  | succ fuel ih =>
    obtain ⟨r, rfl, twin⟩ := twin
    have same : sight { s with replacement := r } = s.sight := rfl
    have captured (found : Pattern.Found) := found.captures_shared P s.subject
    simp only [run, same]
    cases s.sight with
    | nothing => exact .finished (finished s)
    | passed c => exact ih ⟨r, rfl, twin⟩
    | matched found =>
      simp only [past]
      generalize s.replacement = q at twin ⊢
      cases twin with
      | template text => exact ih ⟨_, rfl, .template text⟩
      | lookup known =>
        refine .lookup known ?_ ⟨_, rfl, .lookup known⟩
        have shared := captured found
        cases captures : found.captures s.subject with
        | nil => trivial
        | cons v rest =>
          rw [captures] at shared
          exact shared v List.mem_cons_self
      | call paired => exact .call paired (captured found) ⟨_, rfl, .call paired⟩

theorem collect_twin (twin : s.Twin P t) {v v' : Value} (value : v.Twin P v') :
    Likewise (Substitution.Twin P) (s.collect v) (t.collect v') := by
  obtain ⟨r, rfl, twin⟩ := twin
  simp only [collect, value.asText?, value.isTruthy, value.kind]
  split
  · exact .ok ⟨r, rfl, twin⟩
  · split
    · exact .error _
    · exact .ok ⟨r, rfl, twin⟩

theorem start_twin {args args' : List Value} (twins : Values.Twin P args args') :
    Likewise (Substitution.Twin P) (start args) (start args') := by
  refine Parallel.reading ?_ "gsub" twins
  apply Parallel.nextText.bind_same
  intro s
  apply Parallel.nextText.bind_same
  intro wanted
  apply (Parallel.lift _).bind_same
  intro program
  refine Parallel.nextOrNil.bind fun v v' value => ?_
  have rest {r r' : Replacement} (twin : r.Twin P r') : Parallel P (Substitution.Twin P)
      (do
        let limit ← optInt Int64.maxValue
        return { subject := s.toList.toArray, search := program.search?, replacement := r, limit := limit.toInt })
      (do
        let limit ← optInt Int64.maxValue
        return { subject := s.toList.toArray, search := program.search?, replacement := r', limit := limit.toInt }) := by
    apply (Parallel.optInt _).bind_same
    intro limit
    exact .pure ⟨r', rfl, twin⟩
  cases value with
  | function paired => exact rest (.call paired)
  | same shared =>
    split
    · exact rest (.lookup shared)
    · cases shared
    · split
      · exact rest (.template _)
      · refine Parallel.get.bind fun a b twin => ?_
        rw [twin.bad]
        exact .bind (.throw _) fun _ _ _ => rest ‹_›

end Substitution

namespace Formatting

open Arguments

/-- The formattings are the same but for the arguments, which are counterparts. -/
def Twin (P : Pairing) (s t : Formatting) : Prop := ∃ a, t = { s with args := a } ∧ s.args.Twin P a

variable {P Q : Pairing} {s t : Formatting}

theorem Twin.mono (within : P.Within Q) : s.Twin P t → s.Twin Q t := by
  rintro ⟨a, rfl, twin⟩
  exact ⟨a, rfl, twin.mono within⟩

/-- The texts of counterparts are asked for, or both are finished with the same. -/
inductive Next.Twin (P : Pairing) : Next → Next → Prop where
  | finished (text : String) : Next.Twin P (.finished text) (.finished text)
  | textOf {v v' : Value} {s t : Formatting} (value : v.Twin P v') (twin : s.Twin P t) :
      Next.Twin P (.textOf v s) (.textOf v' t)

theorem convert_parallel (d : Directive) : Parallel P (Sum.LiftRel Eq (Value.Twin P)) (convert d) (convert d) := by
  have told (text : String) : Parallel P (Sum.LiftRel Eq (Value.Twin P)) (pure (.inl text)) (pure (.inl text)) :=
    .pure (.inl rfl)
  have number {answer : Int64 → String} : Parallel P (Sum.LiftRel Eq (Value.Twin P))
      (nextInt >>= fun i => pure (.inl (answer i))) (nextInt >>= fun i => pure (.inl (answer i))) := by
    apply Parallel.nextInt.bind_same
    intro i
    exact told _
  have float : Parallel P (Sum.LiftRel Eq (Value.Twin P))
      (nextFloat >>= fun x => pure (.inl (d.float x))) (nextFloat >>= fun x => pure (.inl (d.float x))) := by
    apply Parallel.nextFloat.bind_same
    intro x
    exact told _
  unfold convert
  split
  iterate 6 exact number
  · apply Parallel.nextInt.bind_same
    intro code
    dsimp only
    split
    · exact told _
    · exact .badLast _
  iterate 6 exact float
  · refine Parallel.nextAny.bind fun v v' value => ?_
    rw [value.literal?]
    split
    · exact told _
    · exact .badLast _
  · refine Parallel.nextAny.bind fun v v' value => ?_
    rw [value.asText?]
    split
    · exact told _
    · exact .pure (.inr value)
  · exact .throw _

theorem run_twin (twin : s.Twin P t) (fuel : Nat) : Likewise (Next.Twin P) (s.run fuel) (t.run fuel) := by
  induction fuel generalizing s t with
  | zero =>
    obtain ⟨a, rfl, _⟩ := twin
    exact .ok (.finished _)
  | succ fuel ih =>
    obtain ⟨a, rfl, twin⟩ := twin
    have missing : a.bad (a.position + 1) .missing = s.args.bad (s.args.position + 1) .missing := by
      rw [twin.position, twin.bad]
    rw [run, run]
    dsimp only
    split
    · exact .ok (.finished _)
    · exact ih ⟨a, rfl, twin⟩
    · rw [twin.hasNext, missing]
      split
      · exact .error _
      · refine (Likewise.same (Directive.read _)).bind ?_
        rintro ⟨d, rest⟩ _ rfl
        refine (convert_parallel d s.args a twin).bind ?_
        rintro ⟨converted, left⟩ ⟨converted', left'⟩ ⟨told, twin⟩
        cases told with
        | inl same =>
          cases same
          exact ih ⟨left', rfl, twin⟩
        | inr value => exact .ok (.textOf value ⟨left', rfl, twin⟩)
    · exact ih ⟨a, rfl, twin⟩

theorem collect_twin (twin : s.Twin P t) {v v' : Value} (value : v.Twin P v') :
    Likewise (Formatting.Twin P) (s.collect v) (t.collect v') := by
  obtain ⟨a, rfl, twin⟩ := twin
  simp only [collect, value.asText?]
  split
  · exact .ok ⟨a, rfl, twin⟩
  · split
    · exact .ok ⟨a, rfl, twin⟩
    · exact .error _

theorem start_twin {args args' : List Value} (twins : Values.Twin P args args') :
    Likewise (Formatting.Twin P) (start args) (start args') := by
  refine (Parallel.nextText ⟨"format", args, 0⟩ ⟨"format", args', 0⟩ ⟨rfl, rfl, twins⟩).bind ?_
  rintro ⟨text, left⟩ ⟨_, left'⟩ ⟨rfl, twin⟩
  exact .ok ⟨left', rfl, twin⟩

end Formatting

end CoopScript
