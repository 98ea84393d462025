import ClamSyntax.Bytecode.Locals

namespace ClamSyntax.Locals

inductive Call where
  | push (name : String)
  | pop (count : Nat)
  | resolve (name : String)

/-- The scope after a call; looking a name up changes nothing. -/
def step (scope : Locals) : Call → Locals
  | .push name => (scope.push name).2
  | .pop count => scope.pop count
  | .resolve _ => scope

def after (scope : Locals) (calls : List Call) : Locals := calls.foldl step scope

/-- The names can all be brought in, one behind the other, and lead to the last scope. -/
inductive Enters : Locals → List String → Locals → Prop
  | nil (scope : Locals) : Enters scope [] scope
  | cons {scope next last : Locals} {name : String} {names : List String} {slot : Nat} :
      scope.push name = (.ok slot, next) → Enters next names last →
      Enters scope (name :: names) last

/-- At no time during the calls fewer names are in scope than in the beginning, and in the end
just as many. -/
structure Balanced (scope : Locals) (calls : List Call) : Prop where
  above : ∀ earlier, earlier <+: calls → scope.size ≤ (scope.after earlier).size
  level : (scope.after calls).size = scope.size

variable {scope next : Locals} {name : String} {slot : Nat}

theorem eq_of_toList (same : scope.names.toList = next.names.toList) : scope = next :=
  congrArg Locals.mk (Array.toList_inj.mp same)

theorem push_cases (scope : Locals) (name : String) :
    (scope.size < operandLimit ∧ scope.push name = (.ok scope.size, ⟨scope.names.push name⟩)) ∨
      (operandLimit ≤ scope.size ∧ scope.push name = (.error .tooManyLocals, scope)) := by
  by_cases room : scope.size < operandLimit
  · exact .inl ⟨room, if_pos room⟩
  · exact .inr ⟨Nat.not_lt.mp room, if_neg room⟩

@[simp] theorem toList_pop (scope : Locals) (count : Nat) :
    (scope.pop count).names.toList = scope.names.toList.take (scope.size - count) := by
  simp [pop]

@[simp] theorem size_pop (scope : Locals) (count : Nat) :
    (scope.pop count).size = scope.size - count := by
  simp [pop, size]

private theorem size_step_le (call : Call) (bounded : scope.size ≤ operandLimit) :
    (scope.step call).size ≤ operandLimit := by
  cases call with
  | push name =>
    rcases scope.push_cases name with ⟨room, same⟩ | ⟨_, same⟩
    · rw [step, same, size, Array.size_push]
      exact room
    · rw [step, same]
      exact bounded
  | pop count =>
    rw [step, size_pop]
    omega
  | resolve name => exact bounded

private theorem size_after_le (calls : List Call) (bounded : scope.size ≤ operandLimit) :
    (scope.after calls).size ≤ operandLimit := by
  induction calls generalizing scope with
  | nil => exact bounded
  | cons call calls ih => exact ih (size_step_le call bounded)

theorem resolveBelow_eq_some_iff {bound : Nat} :
    scope.resolveBelow name bound = some slot ↔
      slot < bound ∧ scope.names[slot]? = some name ∧
        ∀ other < bound, scope.names[other]? = some name → other ≤ slot := by
  induction bound with
  | zero => simp [resolveBelow]
  | succ bound ih =>
    rw [resolveBelow]
    by_cases here : scope.names[bound]? = some name
    · rw [if_pos here, Option.some.injEq]
      constructor
      · rintro rfl
        exact ⟨Nat.lt_succ_self _, here, fun other below _ => Nat.le_of_lt_succ below⟩
      · rintro ⟨below, _, greatest⟩
        exact Nat.le_antisymm (greatest bound (Nat.lt_succ_self _) here) (Nat.le_of_lt_succ below)
    · rw [if_neg here, ih]
      constructor
      · rintro ⟨below, there, greatest⟩
        refine ⟨Nat.lt_succ_of_lt below, there, fun other inside holds => ?_⟩
        rcases Nat.lt_succ_iff_lt_or_eq.mp inside with lower | rfl
        · exact greatest other lower holds
        · exact absurd holds here
      · rintro ⟨below, there, greatest⟩
        rcases Nat.lt_succ_iff_lt_or_eq.mp below with lower | rfl
        · exact ⟨lower, there, fun other inside => greatest other (Nat.lt_succ_of_lt inside)⟩
        · exact absurd there here

private theorem resolveBelow_eq_none_iff {bound : Nat} :
    scope.resolveBelow name bound = none ↔ ∀ slot < bound, scope.names[slot]? ≠ some name := by
  induction bound with
  | zero => simp [resolveBelow]
  | succ bound ih =>
    rw [resolveBelow]
    by_cases here : scope.names[bound]? = some name
    · rw [if_pos here]
      exact ⟨nofun, fun missing => absurd here (missing bound (Nat.lt_succ_self _))⟩
    · rw [if_neg here, ih, Nat.forall_lt_succ_right]
      exact ⟨fun missing => ⟨missing, here⟩, And.left⟩

theorem lt_size_of_holds (holds : scope.names[slot]? = some name) : slot < scope.size :=
  (Array.getElem?_eq_some_iff.mp holds).1

/-- Where the slots fit the operands no slot gets lost on the way to one. -/
theorem resolve?_eq (bounded : scope.size ≤ operandLimit) (name : String) :
    scope.resolve? name = scope.resolveBelow name scope.size := by
  rw [resolve?]
  cases found : scope.resolveBelow name scope.size with
  | none => rfl
  | some slot =>
    have inside := (resolveBelow_eq_some_iff.mp found).1
    exact if_pos (Nat.lt_of_lt_of_le inside bounded)

private theorem resolve?_eq_some_iff (bounded : scope.size ≤ operandLimit) :
    scope.resolve? name = some slot ↔ scope.names[slot]? = some name ∧
      ∀ other, scope.names[other]? = some name → other ≤ slot := by
  rw [resolve?_eq bounded, resolveBelow_eq_some_iff]
  constructor
  · rintro ⟨_, holds, greatest⟩
    exact ⟨holds, fun other there => greatest other (lt_size_of_holds there) there⟩
  · rintro ⟨holds, greatest⟩
    exact ⟨lt_size_of_holds holds, holds, fun other _ => greatest other⟩

private theorem resolve?_eq_none_iff (bounded : scope.size ≤ operandLimit) :
    scope.resolve? name = none ↔ name ∉ scope.names := by
  rw [resolve?_eq bounded, resolveBelow_eq_none_iff]
  constructor
  · intro missing member
    obtain ⟨slot, holds⟩ := Array.getElem?_of_mem member
    exact missing slot (lt_size_of_holds holds) holds
  · intro absent slot _ holds
    exact absent (Array.mem_of_getElem? holds)

private theorem take_step {height : Nat} (call : Call) (start : height ≤ scope.size)
    (above : height ≤ (scope.step call).size) :
    (scope.step call).names.toList.take height = scope.names.toList.take height := by
  cases call with
  | push name =>
    rcases scope.push_cases name with ⟨_, same⟩ | ⟨_, same⟩
    · rw [step, same, Array.toList_push]
      exact List.take_append_of_le_length start
    · rw [step, same]
  | pop count =>
    rw [step, size_pop] at above
    rw [step, toList_pop, List.take_take, Nat.min_eq_left above]
  | resolve name => rfl

private theorem take_after {height : Nat} (calls : List Call)
    (above : ∀ earlier, earlier <+: calls → height ≤ (scope.after earlier).size) :
    (scope.after calls).names.toList.take height = scope.names.toList.take height := by
  induction calls generalizing scope with
  | nil => rfl
  | cons call calls ih =>
    have start : height ≤ scope.size := above [] List.nil_prefix
    have first : height ≤ (scope.step call).size :=
      above [call] (List.prefix_append [call] calls)
    have rest := ih fun earlier part =>
      above (call :: earlier) (List.prefix_cons_inj call |>.mpr part)
    exact rest.trans (take_step call start first)

private theorem Balanced.after_eq {calls : List Call} (balanced : scope.Balanced calls) :
    scope.after calls = scope := by
  have same := take_after calls balanced.above
  have whole : (scope.after calls).names.toList.take scope.size =
      (scope.after calls).names.toList :=
    List.take_of_length_le (Nat.le_of_eq balanced.level)
  have all : scope.names.toList.take scope.size = scope.names.toList :=
    List.take_of_length_le (Nat.le_refl _)
  rw [whole, all] at same
  exact eq_of_toList same

private theorem Enters.names_eq {names : List String} (enters : scope.Enters names next) :
    next.names.toList = scope.names.toList ++ names := by
  induction enters with
  | nil => exact (List.append_nil _).symm
  | @cons scope next last name names slot pushed _ ih =>
    rcases scope.push_cases name with ⟨_, same⟩ | ⟨_, same⟩
    · cases pushed.symm.trans same
      rw [ih, Array.toList_push, List.append_assoc, List.singleton_append]
    · cases pushed.symm.trans same

private theorem Enters.pop_eq {names : List String} (enters : scope.Enters names next) :
    next.pop names.length = scope := by
  have longer := congrArg List.length enters.names_eq
  rw [List.length_append, Array.length_toList, Array.length_toList] at longer
  have kept : next.size - names.length = scope.names.toList.length := by
    rw [size, longer, Nat.add_sub_cancel, Array.length_toList]
  apply eq_of_toList
  rw [toList_pop, enters.names_eq, kept, List.take_left]

/-- What a scope promises at any time. -/
structure Disciplined (scope : Locals) : Prop where
  bounded : scope.size ≤ 65536
  /-- a name is brought in as long as there is room, at the slot behind all others -/
  pushed : ∀ (name : String) (slot : Nat),
    (scope.push name).1 = .ok slot ↔ scope.size < 65536 ∧ slot = scope.size
  extended : ∀ (name : String) (slot : Nat), (scope.push name).1 = .ok slot →
    (scope.push name).2.names = scope.names.push name
  /-- a name that is refused changes nothing -/
  refused : ∀ (name : String) (error : LimitError), (scope.push name).1 = .error error →
    error = .tooManyLocals ∧ (scope.push name).2 = scope
  /-- a name has the largest slot that holds it -/
  resolved : ∀ (name : String) (slot : Nat), scope.resolve? name = some slot ↔
    scope.names[slot]? = some name ∧ ∀ other, scope.names[other]? = some name → other ≤ slot
  unresolved : ∀ name : String, scope.resolve? name = none ↔ name ∉ scope.names
  /-- names that were brought in, and dropped again behind a balanced history, leave no trace -/
  restored : ∀ (names : List String) (inner : Locals) (calls : List Call),
    scope.Enters names inner → inner.Balanced calls →
      ((inner.after calls).pop names.length).size = scope.size ∧
        ∀ name, ((inner.after calls).pop names.length).resolve? name = scope.resolve? name

private theorem disciplined_of_size_le (bounded : scope.size ≤ operandLimit) :
    scope.Disciplined where
  bounded := bounded
  pushed name slot := by
    rcases scope.push_cases name with ⟨room, same⟩ | ⟨full, same⟩
    · rw [same, Except.ok.injEq]
      exact ⟨fun here => ⟨room, here.symm⟩, fun there => there.2.symm⟩
    · rw [same]
      exact ⟨nofun, fun there => absurd there.1 (Nat.not_lt.mpr full)⟩
  extended name slot pushed := by
    rcases scope.push_cases name with ⟨_, same⟩ | ⟨_, same⟩
    · rw [same]
    · rw [same] at pushed
      cases pushed
  refused name error failed := by
    rcases scope.push_cases name with ⟨_, same⟩ | ⟨_, same⟩
    · rw [same] at failed
      cases failed
    · rw [same] at failed ⊢
      cases failed
      exact ⟨rfl, rfl⟩
  resolved _ _ := resolve?_eq_some_iff bounded
  unresolved _ := resolve?_eq_none_iff bounded
  restored names inner calls enters balanced := by
    rw [balanced.after_eq, enters.pop_eq]
    exact ⟨rfl, fun _ => rfl⟩

/-- Whatever names were brought in, dropped and looked up, the scope keeps its promises. -/
theorem disciplined_after (calls : List Call) : (empty.after calls).Disciplined :=
  disciplined_of_size_le (size_after_le calls (Nat.zero_le _))

/-- A variable that hides another one of its name, and is dropped. -/
example :
    let outer := empty.after [.push "x", .push "y"]
    outer.resolve? "x" = some 0 ∧ (outer.after [.push "x"]).resolve? "x" = some 2 ∧
      (outer.after [.push "x", .push "z", .pop 1, .pop 1]).resolve? "x" = some 0 := by
  decide

end ClamSyntax.Locals
