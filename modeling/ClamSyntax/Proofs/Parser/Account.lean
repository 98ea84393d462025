import ClamSyntax.Proofs.Parser.Reading
import ClamSyntax.Proofs.Token.Spelling

/-! Accounts of readings. A reader accounts for the tokens that it takes if they are
exactly those of the value it gives, and, where it stops, if they begin some value. Either
answer must depend on no token behind the next one. The rules below follow the shapes of
the readers. -/

namespace ClamSyntax.Parser

/-- What a reader reads: the tokens of a value, the values it may give, and the
continuations before which a value ends. -/
structure Category (α : Type) where
  tokens : α → List Token
  Holds : α → Prop
  Ends : α → Continuation → Prop

/-- What holds at the end holds of all tokens that do not go on there. -/
theorem forall_head_none {P : List Token → Prop} (atEnd : P []) :
    ∀ later : List Token, later.head? = ([] : List Token).head? → P later := by
  intro later head
  rw [List.head?_eq_none_iff.mp head]
  exact atEnd

/-- What holds behind a token holds of all tokens that begin with it. -/
theorem forall_head_some {P : List Token → Prop} {token : Token} {rest : List Token}
    (behind : ∀ more, P (token :: more)) :
    ∀ later : List Token, later.head? = (token :: rest).head? → P later := by
  intro later head
  obtain ⟨more, rfl⟩ := List.head?_eq_some_iff.mp head
  exact behind more

theorem head?_append_of_split {tokens taken rest later : List Token}
    (split : tokens = taken ++ rest) (head : later.head? = rest.head?) :
    (taken ++ later).head? = tokens.head? := by
  rw [split, List.head?_append, List.head?_append, head]

/-- Some value of the category begins with these tokens and goes on with proper ones. -/
def Category.Begins (category : Category α) (before : List Token) : Prop :=
  ∃ value more, category.tokens value = before ++ more ∧ category.Holds value ∧
    ∀ token ∈ more, token.lexeme.Proper

/-- What begins a part of a value begins the value behind what stands before the part, if the
value can be completed behind the whole part. -/
theorem Category.Begins.within {part : Category β} {category : Category α}
    {before inner : List Token} (begins : part.Begins inner)
    (completes : ∀ value, part.Holds value → category.Begins (before ++ part.tokens value)) :
    category.Begins (before ++ inner) := by
  obtain ⟨value, more, spelled, holds, proper⟩ := begins
  obtain ⟨whole, others, spelledWhole, holdsWhole, properOthers⟩ := completes value holds
  refine ⟨whole, more ++ others, ?_, holdsWhole, List.forall_mem_append.mpr ⟨proper, properOthers⟩⟩
  rw [spelledWhole, spelled]
  simp

/-- A bad escape is reported at the string that holds it. -/
def Stop.Explained (stop : Stop) : Prop :=
  ∀ fault, stop.reason = .badEscape fault → ∃ body start,
    stop.rest.head? = some ⟨.quoted body, start⟩ ∧ Literal.unescape body = .error fault

/-- The account of a reader at some tokens, behind those that were read before for the
same value. -/
structure Accounts (category : Category α) (before : List Token)
    (reader : List Token → Reading α) (tokens : List Token) : Prop where
  read : ∀ {value rest}, reader tokens = .ok (value, rest) →
    ∃ taken, tokens = taken ++ rest ∧ category.tokens value = before ++ taken ∧
      category.Holds value ∧ category.Ends value (upcoming rest) ∧
      ∀ later, later.head? = rest.head? → reader (taken ++ later) = .ok (value, later)
  stopped : ∀ {stop}, reader tokens = .error stop →
    ∃ taken, tokens = taken ++ stop.rest ∧ category.Begins (before ++ taken) ∧ stop.Explained ∧
      ∀ later, later.head? = stop.rest.head? →
        reader (taken ++ later) = .error ⟨stop.reason, later⟩

namespace Accounts

variable {category : Category α} {before tokens : List Token} {reader : List Token → Reading α}

theorem give (value : α) (spelled : category.tokens value = before) (holds : category.Holds value)
    (ends : category.Ends value (upcoming tokens))
    (same : ∀ later, later.head? = tokens.head? → reader later = .ok (value, later)) :
    Accounts category before reader tokens where
  read found := by
    rw [same tokens rfl] at found
    cases found
    exact ⟨[], rfl, by simpa using spelled, holds, ends, same⟩
  stopped found := by
    rw [same tokens rfl] at found
    cases found

theorem stop (reason : Reason) (begins : category.Begins before)
    (explained : Stop.Explained ⟨reason, tokens⟩)
    (same : ∀ later, later.head? = tokens.head? → reader later = .error ⟨reason, later⟩) :
    Accounts category before reader tokens where
  read found := by
    rw [same tokens rfl] at found
    cases found
  stopped found := by
    rw [same tokens rfl] at found
    cases found
    exact ⟨[], rfl, by simpa using begins, explained, same⟩

theorem refuse {what : Expectation} (begins : category.Begins before)
    (same : ∀ later, later.head? = tokens.head? → reader later = .error ⟨.expected what, later⟩) :
    Accounts category before reader tokens :=
  stop _ begins (fun _ escape => by cases escape) same

theorem token {token : Token} {next : List Token → Reading α}
    (same : ∀ later, reader (token :: later) = next later)
    (account : Accounts category (before ++ [token]) next tokens) :
    Accounts category before reader (token :: tokens) where
  read found := by
    rw [same tokens] at found
    obtain ⟨taken, split, spelled, holds, ends, again⟩ := account.read found
    refine ⟨token :: taken, congrArg (token :: ·) split, by simpa using spelled, holds, ends, ?_⟩
    intro later head
    exact (same _).trans (again later head)
  stopped found := by
    rw [same tokens] at found
    obtain ⟨taken, split, begins, explained, again⟩ := account.stopped found
    refine ⟨token :: taken, congrArg (token :: ·) split, by simpa using begins, explained, ?_⟩
    intro later head
    exact (same _).trans (again later head)

theorem choose (chosen : List Token → Reading α)
    (account : Accounts category before chosen tokens)
    (same : ∀ later, later.head? = tokens.head? → reader later = chosen later) :
    Accounts category before reader tokens where
  read {value rest} found := by
    rw [same tokens rfl] at found
    obtain ⟨taken, split, spelled, holds, ends, again⟩ := account.read found
    refine ⟨taken, split, spelled, holds, ends, fun later head => ?_⟩
    have heads := head?_append_of_split split head
    exact (same _ heads).trans (again later head)
  stopped {stop} found := by
    rw [same tokens rfl] at found
    obtain ⟨taken, split, begins, explained, again⟩ := account.stopped found
    refine ⟨taken, split, begins, explained, fun later head => ?_⟩
    have heads := head?_append_of_split split head
    exact (same _ heads).trans (again later head)

/-- A part is read, and the rest of the value behind it. -/
theorem sequence {part : Category β} {first : List Token → Reading β}
    {next : β → List Token → Reading α} (account : Accounts part [] first tokens)
    (behind : ∀ value rest, part.Holds value → part.Ends value (upcoming rest) →
      tokens = part.tokens value ++ rest →
      Accounts category (before ++ part.tokens value) (next value) rest)
    (begins : ∀ value, part.Holds value → category.Begins (before ++ part.tokens value)) :
    Accounts category before (fun tokens => (first tokens).andThen next) tokens where
  read {value rest} found := by
    cases opened : first tokens with
    | error stop => rw [opened] at found; cases found
    | ok reading =>
      obtain ⟨inner, middle⟩ := reading
      rw [opened] at found
      obtain ⟨taken, split, spelled, holds, ends, again⟩ := account.read opened
      rw [List.nil_append] at spelled
      have splitPart : tokens = part.tokens inner ++ middle := by rw [spelled, split]
      obtain ⟨more, splitMore, spelledMore, holdsMore, endsMore, againMore⟩ :=
        (behind inner middle holds ends splitPart).read found
      refine ⟨taken ++ more, ?_, ?_, holdsMore, endsMore, ?_⟩
      · rw [split, splitMore, List.append_assoc]
      · rw [spelledMore, spelled, List.append_assoc]
      · intro later head
        have heads := head?_append_of_split splitMore head
        simp only [List.append_assoc, again (more ++ later) heads]
        exact againMore later head
  stopped {stop} found := by
    cases opened : first tokens with
    | error other =>
      rw [opened] at found
      cases found
      obtain ⟨taken, split, inner, explained, again⟩ := account.stopped opened
      refine ⟨taken, split, inner.within begins, explained, ?_⟩
      · intro later head
        simp only [again later head]
        rfl
    | ok reading =>
      obtain ⟨inner, middle⟩ := reading
      rw [opened] at found
      obtain ⟨taken, split, spelled, holds, ends, again⟩ := account.read opened
      rw [List.nil_append] at spelled
      have splitPart : tokens = part.tokens inner ++ middle := by rw [spelled, split]
      obtain ⟨more, splitMore, beginsMore, explained, againMore⟩ :=
        (behind inner middle holds ends splitPart).stopped found
      refine ⟨taken ++ more, ?_, ?_, explained, ?_⟩
      · rw [split, splitMore, List.append_assoc]
      · rw [spelled, List.append_assoc] at beginsMore
        exact beginsMore
      · intro later head
        have heads := head?_append_of_split splitMore head
        simp only [List.append_assoc, again (more ++ later) heads]
        exact againMore later head

theorem last {part : Category β} {first : List Token → Reading β} {build : β → α}
    (account : Accounts part [] first tokens)
    (spelled : ∀ value, category.tokens (build value) = before ++ part.tokens value)
    (holds : ∀ value, part.Holds value → category.Holds (build value))
    (ends : ∀ value continuation, part.Ends value continuation →
      category.Ends (build value) continuation) :
    Accounts category before
      (fun tokens => (first tokens).andThen fun value rest => .ok (build value, rest)) tokens := by
  apply sequence account
  · intro value rest valid ended _
    exact give (build value) (spelled value) (holds value valid) (ends value _ ended) fun _ _ => rfl
  · intro value valid
    exact ⟨build value, [], by simp [spelled], holds value valid, nofun⟩

end Accounts

end ClamSyntax.Parser
