import ClamSyntax.Proofs.Parser.Pieces

/-! Reading the same tokens at two powers. Only the loop behind a finished operand looks at the
power, and only to decide whether it ends; the powers inside an operand come from the operators.
So the loop at the lower power goes through all states of the one at the higher power, and on
from where that one ended, with the phrase read so far as the first operand of all that follows. -/

namespace ClamSyntax

namespace Phrase

private theorem mem_leftSpine_trans {part middle whole : Phrase} (inner : part ∈ middle.leftSpine)
    (outer : middle ∈ whole.leftSpine) : part ∈ whole.leftSpine := by
  cases whole with
  | binary operand | application operand | subscript operand =>
    rcases List.mem_cons.mp outer with rfl | deeper
    · exact inner
    · exact List.mem_cons_of_mem _ (mem_leftSpine_trans inner deeper)
  | _ =>
    obtain rfl := List.mem_singleton.mp outer
    exact inner

private theorem exists_tokens_of_mem_leftSpine {part whole : Phrase}
    (inner : part ∈ whole.leftSpine) :
    ∃ more, whole.tokens = part.tokens ++ more ∧ (more = [] → whole = part) := by
  cases whole with
  | binary operand | application operand | subscript operand =>
    rcases List.mem_cons.mp inner with rfl | deeper
    · exact ⟨[], (List.append_nil _).symm, fun _ => rfl⟩
    · obtain ⟨more, begins, -⟩ := exists_tokens_of_mem_leftSpine deeper
      rw [tokens, begins, List.append_assoc]
      exact ⟨_, rfl, by simp [tokens_ne_nil]⟩
  | _ =>
    obtain rfl := List.mem_singleton.mp inner
    exact ⟨[], (List.append_nil _).symm, fun _ => rfl⟩

end Phrase

namespace Parser

variable {origin : List Token}

/-- One round of the loop ends it, or fails, or appends something to the operand. Where it does
not end the loop at some power, it is the same round at all lower powers. -/
theorem continuations_step (high : Nat) (left : Phrase) (tokens : List Token)
    (shorter : tokens.length < origin.length) :
    continuations origin high left tokens shorter = .read left tokens shorter ∨
    (∃ failure, ∀ low ≤ high, continuations origin low left tokens shorter = .failed failure) ∨
    ∃ next rest, ∃ shorter₁ : rest.length < origin.length,
      rest.length < tokens.length ∧ left ∈ next.leftSpine ∧ ∀ low ≤ high,
        continuations origin low left tokens shorter =
          continuations origin low next rest shorter₁ := by
  cases tokens with
  | nil =>
    rw [continuations]
    simp
  | cons token rest =>
    cases next : token.kind.continuation with
    | stop =>
      rw [continuations]
      simp [next]
    | misplaced =>
      refine .inr (.inl ⟨⟨.expected .continuation, [.complete left], token :: rest⟩, ?_⟩)
      intro low _
      rw [continuations]
      simp only [next]
    | operator op =>
      by_cases cut : op.power.left < high
      · rw [continuations]
        simp [next, cut]
      have kept (low : Nat) (lower : low ≤ high) : ¬ op.power.left < low := by omega
      cases read : expression op.power.right rest with
      | failed failure =>
        refine .inr (.inl ⟨failure.after [.complete left, .inner token], fun low lower => ?_⟩)
        rw [continuations]
        simp only [next, if_neg (kept low lower), read]
      | read right rest₁ shorter₁ =>
        have fewer : rest₁.length < (token :: rest).length := Nat.lt_succ_of_lt shorter₁
        refine .inr (.inr ⟨.binary left op token.start right, rest₁, Nat.lt_trans fewer shorter,
          fewer, List.mem_cons_of_mem _ left.mem_leftSpine, fun low lower => ?_⟩)
        rw [continuations.eq_def]
        simp only [next, if_neg (kept low lower), read]
    | argument =>
      by_cases cut : Power.application.left < high
      · rw [continuations]
        simp [next, cut]
      have kept (low : Nat) (lower : low ≤ high) : ¬ Power.application.left < low := by omega
      cases read : expression Power.application.right (token :: rest) with
      | failed failure =>
        refine .inr (.inl ⟨failure.after [.complete left], fun low lower => ?_⟩)
        rw [continuations]
        simp only [next, if_neg (kept low lower), read]
      | read argument rest₁ fewer =>
        refine .inr (.inr ⟨.application left argument, rest₁, Nat.lt_trans fewer shorter,
          fewer, List.mem_cons_of_mem _ left.mem_leftSpine, fun low lower => ?_⟩)
        rw [continuations.eq_def]
        simp only [next, if_neg (kept low lower), read]
    | subscript =>
      cases read : expression 0 rest with
      | failed failure =>
        refine .inr (.inl ⟨failure.after [.complete left, .inner token], fun low _ => ?_⟩)
        rw [continuations]
        simp only [next, read]
      | read index rest₁ shorter₁ =>
        cases closes : expect .rightBracket rest₁ with
        | failed failure =>
          refine .inr (.inl ⟨failure.after [.complete left, .inner token, .complete index],
            fun low _ => ?_⟩)
          rw [continuations]
          simp only [next, read, closes]
        | read closing rest₂ shorter₂ =>
          have fewer : rest₂.length < (token :: rest).length :=
            Nat.lt_succ_of_lt (Nat.lt_trans shorter₂ shorter₁)
          refine .inr (.inr ⟨.subscript left token.start index closing, rest₂,
            Nat.lt_trans fewer shorter, fewer, List.mem_cons_of_mem _ left.mem_leftSpine,
            fun low _ => ?_⟩)
          rw [continuations.eq_def]
          simp only [next, read, closes]

/-- How a longer reading goes on from one that a higher power has cut. -/
def Outcome.Resumes (least : Nat) (longer : Outcome Phrase origin) : Outcome Phrase origin → Prop
  | .read cut rest shorter => longer = continuations origin least cut rest shorter
  | .failed failure => longer = .failed failure

/-- The loop at a lower power goes on where the loop at a higher power ended. -/
theorem continuations_resumes {low high : Nat} (lower : low ≤ high) (left : Phrase)
    (tokens : List Token) (shorter : tokens.length < origin.length) :
    (continuations origin low left tokens shorter).Resumes low
      (continuations origin high left tokens shorter) := by
  induction bound : tokens.length using Nat.strongRecOn generalizing left tokens with
  | ind length ih =>
    subst bound
    rcases continuations_step high left tokens shorter with
      ended | ⟨failure, failed⟩ | ⟨next, rest, shorter₁, fewer, -, round⟩
    · rw [ended]
      rfl
    · rw [failed high (Nat.le_refl high), failed low lower]
      rfl
    · rw [round high (Nat.le_refl high), round low lower]
      exact ih rest.length fewer next rest shorter₁ rfl

/-- So does the reading of an expression. -/
theorem expression_resumes {low high : Nat} (lower : low ≤ high) (tokens : List Token) :
    (expression low tokens).Resumes low (expression high tokens) := by
  rw [expression, expression]
  cases term tokens with
  | failed failure => rfl
  | read left rest shorter => exact continuations_resumes lower left rest shorter

private theorem mem_leftSpine_of_continuations {least : Nat} {left whole : Phrase}
    {tokens rest : List Token} {shorter : tokens.length < origin.length}
    {shorter₁ : rest.length < origin.length}
    (reads : continuations origin least left tokens shorter = .read whole rest shorter₁) :
    left ∈ whole.leftSpine := by
  induction bound : tokens.length using Nat.strongRecOn generalizing left tokens with
  | ind length ih =>
    subst bound
    rcases continuations_step least left tokens shorter with
      ended | ⟨failure, failed⟩ | ⟨next, others, shorter₂, fewer, inner, round⟩
    · rw [ended] at reads
      cases reads
      exact Phrase.mem_leftSpine _
    · rw [failed least (Nat.le_refl least)] at reads
      cases reads
    · rw [round least (Nat.le_refl least)] at reads
      exact Phrase.mem_leftSpine_trans inner (ih others.length fewer reads rfl)

/-- Where the higher power fails, so does the lower one, for the same reason. -/
theorem expression_failed_of_le {low high : Nat} (lower : low ≤ high) {tokens : List Token}
    {failure : Failure} (failed : expression high tokens = .failed failure) :
    expression low tokens = .failed failure := by
  have resumes := expression_resumes lower tokens
  rw [failed] at resumes
  exact resumes

/-- Where both powers read a phrase, that of the higher one is a first operand of the other, which
takes some more tokens, or none and is the same. -/
theorem exists_more_of_le {low high : Nat} (lower : low ≤ high) {tokens rest rest₁ : List Token}
    {cut whole : Phrase} {shorter : rest.length < tokens.length}
    {shorter₁ : rest₁.length < tokens.length}
    (cuts : expression high tokens = .read cut rest shorter)
    (reads : expression low tokens = .read whole rest₁ shorter₁) :
    cut ∈ whole.leftSpine ∧ ∃ more, rest = more ++ rest₁ ∧ (more = [] → whole = cut) := by
  have resumes := expression_resumes lower tokens
  rw [cuts, reads] at resumes
  have goesOn : continuations tokens low cut rest shorter = .read whole rest₁ shorter₁ :=
    resumes.symm
  have inner := mem_leftSpine_of_continuations goesOn
  obtain ⟨more, begins, same⟩ := Phrase.exists_tokens_of_mem_leftSpine inner
  have splits := (splitsBelow (rest.length + 1)).continuations (Nat.lt_succ_self _) tokens low cut
    shorter
  rw [goesOn] at splits
  have together : cut.tokens ++ rest = cut.tokens ++ (more ++ rest₁) := by
    rw [← List.append_assoc, ← begins]
    exact splits
  exact ⟨inner, more, List.append_cancel_left together, same⟩

end Parser

end ClamSyntax
