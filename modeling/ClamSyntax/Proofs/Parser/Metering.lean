import ClamSyntax.Proofs.Parser.Metered
import ClamSyntax.Proofs.Token.Place

namespace ClamSyntax

open ClamSyntax.Parser

/-- What is left of a source of the size. -/
structure Remainder where
  tokens : List Token
  size : Nat
  proper : ∀ token ∈ tokens, token.kind ≠ .endOfInput

/-- The token that stands there, or the end. -/
def Remainder.found (input : Remainder) (tokens : List Token) : Token :=
  tokens.head?.getD (Token.atEnd input.size)

def Lap.Progresses (lap : Lap) : Prop := ∃ token ∈ lap.tokens, token.kind ≠ .endOfInput

/-- The tokens are still to come, all others were taken, and the end as often as it says. -/
structure Meter.Stands (input : Remainder) (tokens : List Token) (ends : Nat) (meter : Meter) :
    Prop where
  coming : ∀ index, meter.cursor.coming index = tokens[index]?.getD (Token.atEnd input.size)
  split : meter.taken ++ tokens = input.tokens ++ List.replicate ends (Token.atEnd input.size)
  laps : ∀ lap ∈ meter.laps, lap.Progresses

/-- The offending token was taken, be it the end. -/
def Meter.Refused (input : Remainder) (stop : Stop) (meter : Meter) : Prop :=
  ∃ ends ≤ 1, meter.Stands input stop.rest.tail ends

namespace Meter.Stands

variable {input : Remainder} {tokens rest : List Token} {token : Token} {ends : Nat}
  {meter after : Meter}

theorem next (stands : meter.Stands input tokens ends) :
    meter.cursor.take.1 = input.found tokens := by
  rw [meter.cursor.take_coming.1, stands.coming, Remainder.found, List.head?_eq_getElem?]

private theorem look (stands : meter.Stands input tokens ends) :
    Meter.Stands input tokens ends { meter with cursor := meter.cursor.look.2 } :=
  ⟨fun index => (meter.cursor.look_coming index).trans (stands.coming index), stands.split,
    stands.laps⟩

theorem take (stands : meter.Stands input (token :: rest) ends) :
    Meter.Stands input rest ends
      { meter with
        cursor := meter.cursor.take.2
        taken := meter.taken ++ [meter.cursor.take.1] } where
  coming index := (meter.cursor.take_coming.2 index).trans (stands.coming (index + 1))
  split := by
    rw [stands.next, List.append_assoc]
    exact stands.split
  laps := stands.laps

theorem takeEnd (stands : meter.Stands input [] ends) :
    Meter.Stands input [] (ends + 1)
      { meter with
        cursor := meter.cursor.take.2
        taken := meter.taken ++ [meter.cursor.take.1] } where
  coming index := (meter.cursor.take_coming.2 index).trans (stands.coming (index + 1))
  split := by
    have split := stands.split
    rw [List.append_nil] at split ⊢
    rw [stands.next, split, List.append_assoc, List.replicate_succ']
    rfl
  laps := stands.laps

/-- Fewer tokens are left, so that one was taken in between. -/
theorem note (earlier : meter.Stands input tokens 0) (stands : after.Stands input rest 0)
    (shorter : rest.length < tokens.length) (stretch : Stretch) :
    (after.note meter stretch).Stands input rest 0 := by
  refine ⟨stands.coming, stands.split, List.forall_mem_append.mpr ⟨stands.laps, ?_⟩⟩
  have before : meter.taken ++ tokens = input.tokens := earlier.split.trans (List.append_nil _)
  have behind : after.taken ++ rest = input.tokens := stands.split.trans (List.append_nil _)
  have more : meter.taken.length < after.taken.length := by
    have lengths := congrArg List.length (before.trans behind.symm)
    rw [List.length_append, List.length_append] at lengths
    omega
  obtain ⟨token, later, lap⟩ := List.exists_cons_of_length_pos
    (show 0 < (after.taken.drop meter.taken.length).length by rw [List.length_drop]; omega)
  have member : token ∈ after.taken := List.mem_of_mem_drop (lap ▸ List.mem_cons_self)
  refine List.forall_mem_singleton.mpr ⟨token, lap ▸ List.mem_cons_self, ?_⟩
  exact input.proper token (behind ▸ List.mem_append_left rest member)

end Meter.Stands

namespace Metered

/-- A reader ended as the reading does: with a value that suits it, or at the token at which the
reading stopped. -/
def Ended (input : Remainder) (reading : Reading β) (suits : α → List Token → Reading β → Prop) :
    Except Halt α × Meter → Prop
  | (.ok value, after) => ∃ rest, after.Stands input rest 0 ∧ suits value rest reading
  | (.error (.refused error), after) =>
    ∃ stop, reading = .error stop ∧ error = stop.error input.size ∧ after.Refused input stop
  | (.error .exhausted, _) => False

/-- From wherever the tokens are to come, the reader ends as the reading does. -/
def Follows (input : Remainder) (reader : Metered α) (tokens : List Token) (reading : Reading β)
    (suits : α → List Token → Reading β → Prop) : Prop :=
  ∀ meter, meter.Stands input tokens 0 → Ended input reading suits (reader meter)

/-- The reader does what the reading says. -/
def Keeps (input : Remainder) (reader : Metered α) (tokens : List Token) (reading : Reading α) :
    Prop :=
  Follows input reader tokens reading fun value rest reading => reading = .ok (value, rest)

/-- A turn that leaves has read all. One that goes on leaves fewer tokens than there were, and
what is read from there is what is still to be read. -/
def Leads (readFrom : σ → List Token → Reading β) (count : Nat) :
    Turn σ β → List Token → Reading β → Prop
  | .again next, rest, reading => rest.length < count ∧ reading = readFrom next rest
  | .leave value, rest, reading => reading = .ok (value, rest)

/-- What the turns of a loop do, where fewer tokens are left than the bound. -/
def Turns (input : Remainder) (turn : σ → Metered (Turn σ β))
    (readFrom : σ → List Token → Reading β) (bound : Nat) : Prop :=
  ∀ state tokens, tokens.length < bound →
    Follows input (turn state) tokens (readFrom state tokens) (Leads readFrom tokens.length)

section Rules

variable {input : Remainder} {tokens rest : List Token} {token : Token} {reader : Metered α}
  {reading : Reading γ} {suits : β → List Token → Reading γ → Prop}

theorem follows_pure {value : β} (good : suits value tokens reading) :
    Follows input (pure value) tokens reading suits := fun _ stands => ⟨tokens, stands, good⟩

theorem follows_andThen {first : Reading α} {next : α → Metered β}
    {after : α → List Token → Reading γ} (keeps : Keeps input reader tokens first)
    (second : ∀ value rest, first = .ok (value, rest) →
      Follows input (next value) rest (after value rest) suits) :
    Follows input (reader >>= next) tokens (first.andThen after) suits := by
  intro meter stands
  have ended := keeps meter stands
  simp only [bind]
  generalize reader meter = reached at ended
  match reached, ended with
  | (.ok value, _), ⟨rest, behind, read⟩ =>
    rw [read]
    exact second value rest read _ behind
  | (.error (.refused error), _), ⟨stop, stopped, refused⟩ =>
    rw [stopped]
    exact ⟨stop, rfl, refused⟩

theorem follows_look {next : Token → Metered β} (token : Token)
    (here : input.found tokens = token)
    (second : Follows input (next token) tokens reading suits) :
    Follows input (look >>= next) tokens reading suits := by
  intro meter stands
  have same : meter.cursor.look.1 = token := stands.next.trans here
  rw [← same] at second
  exact second _ stands.look

theorem follows_take {next : Token → Metered β}
    (second : Follows input (next token) rest reading suits) :
    Follows input (take >>= next) (token :: rest) reading suits := by
  intro meter stands
  have same : meter.cursor.take.1 = token := stands.next
  rw [← same] at second
  exact second _ stands.take

theorem follows_refuse {next : Token → Metered β} {reason : Reason} (token : Token)
    (here : input.found tokens = token) (refuses : next token = refuse reason token) :
    Follows input (take >>= next) tokens (.error ⟨reason, tokens⟩) suits := by
  intro meter stands
  have same : meter.cursor.take.1 = token := stands.next.trans here
  subst here
  rw [← same] at refuses
  simp only [bind, take]
  rw [refuses]
  refine ⟨⟨reason, tokens⟩, rfl, ?_, ?_⟩
  · rw [same]
    cases tokens <;> rfl
  · cases tokens with
    | nil => exact ⟨1, Nat.le_refl 1, stands.takeEnd⟩
    | cons token rest => exact ⟨0, Nat.zero_le 1, stands.take⟩

theorem keeps_metered {reading : Reading α} {stretch : Stretch}
    (keeps : Keeps input reader tokens reading)
    (shorter : ∀ value rest, reading = .ok (value, rest) → rest.length < tokens.length) :
    Keeps input (metered stretch reader) tokens reading := by
  intro meter stands
  have ended := keeps meter stands
  simp only [metered]
  generalize reader meter = reached at ended
  match reached, ended with
  | (.ok value, _), ⟨rest, behind, read⟩ =>
    exact ⟨rest, stands.note behind (shorter value rest read) stretch, read⟩
  | (.error (.refused error), _), refused => exact refused

/-- A loop whose turns take tokens ends, and reads what its turns have to. -/
theorem keeps_loop {turn : σ → Metered (Turn σ β)} {readFrom : σ → List Token → Reading β}
    {bound : Nat} (step : Turns input turn readFrom bound) (stretch : Stretch) {turns : Nat}
    {state : σ} {tokens : List Token} (enough : tokens.length < turns)
    (below : tokens.length < bound) :
    Keeps input (loop stretch turn turns state) tokens (readFrom state tokens) := by
  -- every turn that goes on leaves fewer tokens, so the turns outlast the tokens
  induction turns generalizing state tokens with
  | zero => exact absurd enough (Nat.not_lt_zero _)
  | succ turns ih =>
    intro meter stands
    have ended := step state tokens below meter stands
    simp only [loop]
    generalize turn state meter = reached at ended
    match reached, ended with
    | (.ok (.again next), _), ⟨rest, behind, shorter, same⟩ =>
      rw [same]
      exact ih (by omega) (by omega) _ (stands.note behind shorter stretch)
    | (.ok (.leave value), _), left => exact left
    | (.error (.refused error), _), refused => exact refused

end Rules

/-- Recorded laps stay, whether the reader succeeds or not. -/
def KeepsLaps (reader : Metered α) : Prop := ∀ meter, meter.laps <+: (reader meter).2.laps

namespace KeepsLaps

theorem pure (value : α) : KeepsLaps (Pure.pure value : Metered α) := fun _ => List.prefix_rfl

theorem bind {reader : Metered α} {next : α → Metered β} (keeps : KeepsLaps reader)
    (later : ∀ value, KeepsLaps (next value)) : KeepsLaps (reader >>= next) := by
  intro meter
  have first := keeps meter
  simp only [Bind.bind]
  rcases reached : reader meter with ⟨halt | value, after⟩
  · rw [reached] at first
    exact first
  · rw [reached] at first
    exact first.trans (later value after)

theorem take : KeepsLaps take := fun _ => List.prefix_rfl

theorem look : KeepsLaps look := fun _ => List.prefix_rfl

theorem refuse (reason : Reason) (token : Token) : KeepsLaps (refuse reason token : Metered α) :=
  fun _ => List.prefix_rfl

theorem metered {reader : Metered α} (keeps : KeepsLaps reader) (stretch : Stretch) :
    KeepsLaps (metered stretch reader) := by
  intro meter
  have inner := keeps meter
  simp only [Metered.metered]
  rcases reached : reader meter with ⟨halt | value, after⟩
  · rw [reached] at inner
    exact inner
  · rw [reached] at inner
    exact inner.trans (List.prefix_append _ _)

theorem loop {turn : σ → Metered (Turn σ β)} (keeps : ∀ state, KeepsLaps (turn state))
    (stretch : Stretch) (turns : Nat) (state : σ) : KeepsLaps (loop stretch turn turns state) := by
  induction turns generalizing state with
  | zero => exact fun _ => List.prefix_rfl
  | succ turns ih =>
    intro meter
    have first := keeps state meter
    simp only [Metered.loop]
    rcases reached : turn state meter with ⟨halt | next | value, after⟩
    · rw [reached] at first
      exact first
    · rw [reached] at first
      have noted : after.laps <+: (after.note meter stretch).laps := List.prefix_append _ _
      exact (first.trans noted).trans (ih next _)
    · rw [reached] at first
      exact first

theorem symbol (fixed : Symbol) : KeepsLaps (symbol fixed) := by
  refine take.bind fun token => ?_
  split
  · exact pure _
  · exact refuse _ _

theorem name : KeepsLaps name := by
  refine take.bind fun token => ?_
  split
  · exact pure _
  · exact refuse _ _

theorem parameter (before : List Name) : KeepsLaps (parameter before) := by
  refine look.bind fun token => ?_
  split
  · exact take.bind fun token => pure _
  · exact pure _

theorem separator (before : Items → Items) (item : Phrase) : KeepsLaps (separator before item) := by
  refine take.bind fun token => ?_
  split
  · exact pure _
  · split
    · exact pure _
    · exact refuse _ _

variable {nested : Nat → Metered Phrase} (nests : ∀ least, KeepsLaps (nested least))

include nests

theorem item (before : Items → Items) : KeepsLaps (item nested before) := by
  refine look.bind fun token => ?_
  split
  · exact take.bind fun closing => pure _
  · exact (nests 0).bind fun item => separator before item

theorem binding (before : Bindings → Bindings) : KeepsLaps (binding nested before) := by
  refine name.bind fun name => (symbol _).bind fun assign => (nests 0).bind fun value => ?_
  refine look.bind fun separator => ?_
  split
  · exact take.bind fun comma => pure _
  · exact pure _

theorem continuation (least : Nat) (left : Phrase) :
    KeepsLaps (continuation nested least left) := by
  refine look.bind fun token => ?_
  split
  · split
    · exact pure _
    · exact take.bind fun place => (nests _).bind fun right => pure _
  · split
    · exact pure _
    · exact (nests _).bind fun argument => pure _
  · exact take.bind fun opening => (nests 0).bind fun index => (symbol _).bind fun closing => pure _
  · exact pure _
  · exact take.bind fun token => refuse _ _

theorem form (turns : Nat) (token : Token) : KeepsLaps (form nested turns token) := by
  rw [Metered.form]
  cases token.lexeme.opening with
  | literal value =>
    refine take.bind fun token => ?_
    cases value with
    | ok value => exact pure _
    | error fault => exact refuse _ _
  | name text => exact take.bind fun token => pure _
  | list => exact take.bind fun opening => (loop (item nests) _ _ _).bind fun items => pure _
  | letIn =>
    refine take.bind fun opening => (loop (binding nests) _ _ _).bind fun bindings => ?_
    exact (symbol _).bind fun inAt => (nests 0).bind fun body => pure _
  | function =>
    refine take.bind fun opening => name.bind fun first => ?_
    refine (loop parameter _ _ _).bind fun more => ?_
    exact (symbol _).bind fun arrow => (nests 0).bind fun body => pure _
  | print => exact take.bind fun opening => (nests 0).bind fun operand => pure _
  | conditional =>
    refine take.bind fun opening => (nests 0).bind fun condition => (symbol _).bind fun thenAt => ?_
    refine (nests 0).bind fun yes => (symbol _).bind fun elseAt => ?_
    exact (nests 0).bind fun no => pure _
  | unary op => exact take.bind fun opening => (nests _).bind fun operand => pure _
  | group =>
    refine take.bind fun opening => (nests 0).bind fun body => ?_
    exact (symbol _).bind fun closing => pure _
  | nothing => exact take.bind fun token => refuse _ _

theorem term (turns : Nat) : KeepsLaps (term nested turns) :=
  metered (look.bind fun token => form nests turns token) .term

omit nests

theorem expression (allowance least : Nat) : KeepsLaps (expression allowance least) := by
  induction allowance generalizing least with
  | zero => exact fun _ => List.prefix_rfl
  | succ allowance ih =>
    refine metered ((term ih allowance).bind fun left => ?_) .expression
    exact loop (continuation ih least) .continuation allowance left

end KeepsLaps

/-- Whatever becomes of what is read behind a reader that succeeds, its lap is recorded, with all
the tokens it took. -/
theorem metered_recorded {reader : Metered α} {next : α → Metered β} {meter after : Meter}
    {value : α} (read : reader meter = (.ok value, after)) (later : KeepsLaps (next value))
    (stretch : Stretch) :
    ⟨stretch, after.taken.drop meter.taken.length⟩ ∈
      ((metered stretch reader >>= next) meter).2.laps := by
  have passed : (metered stretch reader >>= next) meter =
      next value (after.note meter stretch) := by
    simp only [bind, metered, read]
  rw [passed]
  exact (later _).subset (List.mem_append_right _ List.mem_cons_self)

/-- Whatever becomes of a loop behind a turn that goes on, the lap of that turn is recorded, with
all the tokens it took. -/
theorem loop_recorded {turn : σ → Metered (Turn σ β)} {state next : σ} {meter after : Meter}
    (went : turn state meter = (.ok (.again next), after))
    (keeps : ∀ state, KeepsLaps (turn state)) (stretch : Stretch) (turns : Nat) :
    ⟨stretch, after.taken.drop meter.taken.length⟩ ∈
      (loop stretch turn (turns + 1) state meter).2.laps := by
  have passed : loop stretch turn (turns + 1) state meter =
      loop stretch turn turns next (after.note meter stretch) := by
    simp only [loop, went]
  rw [passed]
  exact (KeepsLaps.loop keeps stretch turns next _).subset
    (List.mem_append_right _ List.mem_cons_self)

end Metered

end ClamSyntax
