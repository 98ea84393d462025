import ClamSyntax.Bytecode.Chunk

/-! The constant pool without its index. A pool that looks every constant up in the list of
its constants gives the same answers to all calls: the index of a chunk holds exactly the
positions of the constants, whatever was asked of the chunk before. -/

namespace ClamSyntax

/-- What tells one constant from another: the variant and the payload, of a float its bits. -/
inductive ConstantKey where
  | unit
  | bool (truth : Bool)
  | int (number : Int32)
  | float (bits : UInt64)
  | str (text : String)
  deriving DecidableEq

def Value.key : Value → ConstantKey
  | unit => .unit
  | bool truth => .bool truth
  | int number => .int number
  | float number => .float number.bits
  | str text => .str text

def ConstantKey.value : ConstantKey → Value
  | unit => .unit
  | bool truth => .bool truth
  | int number => .int number
  | float bits => .float ⟨bits⟩
  | str text => .str text

private theorem Value.value_key (value : Value) : value.key.value = value := by
  cases value <;> rfl

theorem Value.key_inj {first second : Value} : first.key = second.key ↔ first = second := by
  constructor
  · intro same
    rw [← first.value_key, same, second.value_key]
  · exact congrArg key

/-- The two zeros are two constants. -/
example : (Value.float ⟨0⟩).key ≠ (Value.float ⟨0x8000000000000000⟩).key := by decide

/-- What a chunk can be asked to do. -/
inductive Chunk.Call where
  | intern (value : Value)
  | emit (opcode : Opcode)
  | emitWord (word : UInt16)

/-- The result of a call; writing code has none. -/
abbrev Chunk.Reply := Option (Except LimitError Nat)

def Chunk.answer (chunk : Chunk) : Call → Reply × Chunk
  | .intern value => (some (chunk.intern value).1, (chunk.intern value).2)
  | .emit opcode => (none, chunk.emit opcode)
  | .emitWord word => (none, chunk.emitWord word)

/-- A pool of constants and the code that refers to it, and nothing else. -/
structure PlainPool where
  constants : List Value
  code : List UInt16

namespace PlainPool

def empty : PlainPool := ⟨[], []⟩

/-- Where a constant with the key of the value stands. -/
def position? (pool : PlainPool) (value : Value) : Option Nat :=
  pool.constants.findIdx? (·.key = value.key)

def intern (pool : PlainPool) (value : Value) : Except LimitError Nat × PlainPool :=
  match pool.position? value with
  | some position => (.ok position, pool)
  | none =>
    if pool.constants.length < 65536 then
      (.ok pool.constants.length, { pool with constants := pool.constants ++ [value] })
    else (.error .tooManyConstants, pool)

def emitWord (pool : PlainPool) (word : UInt16) : PlainPool :=
  { pool with code := pool.code ++ [word] }

def answer (pool : PlainPool) : Chunk.Call → Chunk.Reply × PlainPool
  | .intern value => (some (pool.intern value).1, (pool.intern value).2)
  | .emit opcode => (none, pool.emitWord opcode.word)
  | .emitWord word => (none, pool.emitWord word)

end PlainPool

namespace Chunk

/-- The replies to calls that are answered one after the other, and the state they lead to. -/
def Call.replies {State : Type} (answer : State → Call → Reply × State) (state : State) :
    List Call → List Reply × State
  | [] => ([], state)
  | call :: calls =>
    let (reply, next) := answer state call
    let (others, last) := replies answer next calls
    (reply :: others, last)

/-- The chunk without its index. -/
def plain (chunk : Chunk) : PlainPool := ⟨chunk.constants.toList, chunk.code.toList⟩

/-- The index holds the positions of the constants, and these fit an operand. -/
structure Indexed (chunk : Chunk) : Prop where
  positions : ∀ (value : Value) (position : Nat),
    chunk.positions[value]? = some position ↔ chunk.constants[position]? = some value
  bounded : chunk.constants.size ≤ operandLimit

variable {chunk : Chunk}

private theorem indexed_empty : empty.Indexed where
  positions value position := by simp [empty]
  bounded := Nat.zero_le _

theorem intern_cases (chunk : Chunk) (value : Value) :
    (∃ position, chunk.positions[value]? = some position ∧
      chunk.intern value = (.ok position, chunk)) ∨
    (chunk.positions[value]? = none ∧ chunk.constants.size < operandLimit ∧
      chunk.intern value = (.ok chunk.constants.size,
        { chunk with
          constants := chunk.constants.push value
          positions := chunk.positions.insert value chunk.constants.size })) ∨
    (chunk.positions[value]? = none ∧ operandLimit ≤ chunk.constants.size ∧
      chunk.intern value = (.error .tooManyConstants, chunk)) := by
  unfold intern
  split
  · rename_i position found
    exact .inl ⟨position, found, rfl⟩
  · rename_i absent
    by_cases room : chunk.constants.size < operandLimit
    · exact .inr (.inl ⟨absent, room, if_pos room⟩)
    · exact .inr (.inr ⟨absent, Nat.not_lt.mp room, if_neg room⟩)

private theorem Indexed.not_mem (indexed : chunk.Indexed) {value : Value}
    (absent : chunk.positions[value]? = none) (position : Nat) :
    chunk.constants[position]? ≠ some value := by
  intro found
  rw [(indexed.positions value position).mpr found] at absent
  cases absent

private theorem Indexed.push (indexed : chunk.Indexed) {value : Value}
    (absent : chunk.positions[value]? = none) (room : chunk.constants.size < operandLimit) :
    Indexed { chunk with
      constants := chunk.constants.push value
      positions := chunk.positions.insert value chunk.constants.size } where
  positions other position := by
    have missing := indexed.not_mem absent
    have known := indexed.positions other position
    rw [Std.HashMap.getElem?_insert, Array.getElem?_push]
    by_cases same : value = other
    · subst same
      by_cases last : position = chunk.constants.size
      · simp [last]
      · simp [last, missing position, Ne.symm last]
    · by_cases last : position = chunk.constants.size
      · subst last
        simp only [beq_iff_eq, same, ↓reduceIte, known]
        simp [same]
      · simp only [beq_iff_eq, same, last, ↓reduceIte, known]
  bounded := by
    rw [Array.size_push]
    exact room

private theorem Indexed.intern (indexed : chunk.Indexed) (value : Value) :
    (chunk.intern value).2.Indexed := by
  rcases chunk.intern_cases value with ⟨_, _, same⟩ | ⟨absent, room, same⟩ | ⟨_, _, same⟩
  · rw [same]
    exact indexed
  · rw [same]
    exact indexed.push absent room
  · rw [same]
    exact indexed

private theorem Indexed.answer (indexed : chunk.Indexed) (call : Call) :
    (chunk.answer call).2.Indexed := by
  cases call with
  | intern value => exact indexed.intern value
  | emit opcode => exact ⟨indexed.positions, indexed.bounded⟩
  | emitWord word => exact ⟨indexed.positions, indexed.bounded⟩

theorem Indexed.position_unique (indexed : chunk.Indexed) {value : Value} {first second : Nat}
    (here : chunk.constants[first]? = some value) (there : chunk.constants[second]? = some value) :
    first = second := by
  have found := (indexed.positions value first).mpr here
  rw [(indexed.positions value second).mpr there] at found
  exact (Option.some.inj found).symm

private theorem Indexed.distinct (indexed : chunk.Indexed) :
    (chunk.constants.toList.map Value.key).Nodup := by
  refine List.pairwise_map.mpr (List.pairwise_iff_getElem.mpr ?_)
  intro first second inside insideToo before sameKey
  rw [Array.length_toList] at inside insideToo
  have same : chunk.constants[first] = chunk.constants[second] := Value.key_inj.mp sameKey
  have here := Array.getElem?_eq_getElem inside
  have there := Array.getElem?_eq_getElem insideToo
  rw [← same] at there
  exact absurd (indexed.position_unique here there) (Nat.ne_of_lt before)

private theorem Indexed.position?_plain (indexed : chunk.Indexed) (value : Value) :
    chunk.plain.position? value = chunk.positions[value]? := by
  apply Option.ext
  intro position
  rw [indexed.positions value position, PlainPool.position?, List.findIdx?_eq_some_iff_getElem]
  constructor
  · rintro ⟨inside, here, -⟩
    rw [← Value.key_inj.mp (of_decide_eq_true here)]
    exact Array.getElem?_eq_getElem inside
  · intro found
    obtain ⟨inside, rfl⟩ := Array.getElem?_eq_some_iff.mp found
    refine ⟨inside, decide_eq_true rfl, fun earlier before hit => ?_⟩
    have same := Value.key_inj.mp (of_decide_eq_true hit)
    have there : chunk.constants[earlier]? = some chunk.constants[position] := by
      rw [← same]
      exact Array.getElem?_eq_getElem (Nat.lt_trans before inside)
    exact absurd (indexed.position_unique there found) (Nat.ne_of_lt before)

private theorem Indexed.intern_plain (indexed : chunk.Indexed) (value : Value) :
    chunk.plain.intern value = ((chunk.intern value).1, (chunk.intern value).2.plain) := by
  unfold PlainPool.intern
  rw [indexed.position?_plain]
  rcases chunk.intern_cases value with
    ⟨position, found, same⟩ | ⟨absent, room, same⟩ | ⟨absent, full, same⟩
  · rw [found, same]
  · rw [absent, same]
    simp only [plain, Array.length_toList, Array.toList_push]
    exact if_pos room
  · rw [absent, same]
    exact if_neg (Nat.not_lt.mpr full)

/-- A call does to the chunk what it does to the pool without an index. -/
theorem Indexed.answer_plain (indexed : chunk.Indexed) (call : Call) :
    chunk.plain.answer call = ((chunk.answer call).1, (chunk.answer call).2.plain) := by
  cases call with
  | intern value => simp only [PlainPool.answer, Chunk.answer, indexed.intern_plain]
  | emit opcode =>
    simp only [PlainPool.answer, PlainPool.emitWord, Chunk.answer, plain, emit, Chunk.emitWord,
      Array.toList_push]
  | emitWord word =>
    simp only [PlainPool.answer, PlainPool.emitWord, Chunk.answer, plain, Chunk.emitWord,
      Array.toList_push]

/-- The same for calls one after the other, and the index stays right. -/
theorem Indexed.replies_plain (indexed : chunk.Indexed) (calls : List Call) :
    Call.replies PlainPool.answer chunk.plain calls =
        ((Call.replies Chunk.answer chunk calls).1,
          (Call.replies Chunk.answer chunk calls).2.plain) ∧
      (Call.replies Chunk.answer chunk calls).2.Indexed := by
  induction calls generalizing chunk with
  | nil => exact ⟨rfl, indexed⟩
  | cons call calls ih =>
    obtain ⟨same, final⟩ := ih (indexed.answer call)
    refine ⟨?_, final⟩
    simp only [Call.replies, indexed.answer_plain, same]

private theorem answer_extends (chunk : Chunk) (call : Call) :
    chunk.constants.toList <+: (chunk.answer call).2.constants.toList := by
  cases call with
  | intern value =>
    rcases chunk.intern_cases value with ⟨_, _, same⟩ | ⟨_, _, same⟩ | ⟨_, _, same⟩
    · simp only [answer, same, List.prefix_refl]
    · simp only [answer, same, Array.toList_push, List.prefix_append]
    · simp only [answer, same, List.prefix_refl]
  | emit opcode => exact List.prefix_refl _
  | emitWord word => exact List.prefix_refl _

private theorem replies_extend (chunk : Chunk) (calls : List Call) :
    chunk.constants.toList <+: (Call.replies answer chunk calls).2.constants.toList := by
  induction calls generalizing chunk with
  | nil => exact List.prefix_refl _
  | cons call calls ih => exact (chunk.answer_extends call).trans (ih _)

/-- What the pool of a chunk promises at any time. -/
structure Pooled (chunk : Chunk) : Prop where
  distinct : (chunk.constants.toList.map Value.key).Nodup
  bounded : chunk.constants.size ≤ 65536
  /-- a position that is returned fits sixteen bits, and the value stands there -/
  named : ∀ (value : Value) (position : Nat), (chunk.intern value).1 = .ok position →
    position < 65536 ∧ ∃ entry, (chunk.intern value).2.constants[position]? = some entry ∧
      entry.key = value.key
  /-- a value that is present is found, and nothing changes -/
  present : ∀ (value entry : Value), entry ∈ chunk.constants → entry.key = value.key →
    ∃ position, chunk.intern value = (.ok position, chunk)
  /-- only a full pool refuses a value, and nothing changes -/
  refused : ∀ (value : Value) (error : LimitError), (chunk.intern value).1 = .error error →
    chunk.constants.size = 65536 ∧ error = .tooManyConstants ∧ (chunk.intern value).2 = chunk
  /-- constants neither move nor change -/
  stable : ∀ calls : List Call,
    chunk.constants.toList <+: (Call.replies answer chunk calls).2.constants.toList
  intern_code : ∀ value : Value, (chunk.intern value).2.code = chunk.code
  emit_constants : ∀ opcode : Opcode, (chunk.emit opcode).constants = chunk.constants
  emitWord_constants : ∀ word : UInt16, (chunk.emitWord word).constants = chunk.constants

private theorem Indexed.pooled (indexed : chunk.Indexed) : chunk.Pooled where
  distinct := indexed.distinct
  bounded := indexed.bounded
  named value position returned := by
    rcases chunk.intern_cases value with
      ⟨other, found, same⟩ | ⟨absent, room, same⟩ | ⟨absent, full, same⟩
    · rw [same] at returned ⊢
      cases returned
      have here := (indexed.positions value position).mp found
      obtain ⟨inside, -⟩ := Array.getElem?_eq_some_iff.mp here
      exact ⟨Nat.lt_of_lt_of_le inside indexed.bounded, value, here, rfl⟩
    · rw [same] at returned ⊢
      cases returned
      exact ⟨room, value, Array.getElem?_push_size, rfl⟩
    · rw [same] at returned
      cases returned
  present value entry member same := by
    obtain rfl := Value.key_inj.mp same
    obtain ⟨position, found⟩ := Array.getElem?_of_mem member
    have known := (indexed.positions entry position).mpr found
    exact ⟨position, by rw [Chunk.intern, known]⟩
  refused value error returned := by
    rcases chunk.intern_cases value with ⟨_, _, same⟩ | ⟨_, _, same⟩ | ⟨_, full, same⟩
    · rw [same] at returned
      cases returned
    · rw [same] at returned
      cases returned
    · rw [same] at returned ⊢
      cases returned
      exact ⟨Nat.le_antisymm indexed.bounded full, rfl, rfl⟩
  stable calls := chunk.replies_extend calls
  intern_code value := by
    rcases chunk.intern_cases value with ⟨_, _, same⟩ | ⟨_, _, same⟩ | ⟨_, _, same⟩ <;> rw [same]
  emit_constants _ := rfl
  emitWord_constants _ := rfl

/-- Any calls on an empty chunk have the replies, and lead to the constants and the code, that
they have without an index: a value that is present has its position, another one is appended
as long as there are fewer than 65,536 constants, and is refused then. -/
theorem replies_eq_plain (calls : List Call) :
    let (replies, chunk) := Call.replies answer empty calls
    let (plainReplies, pool) := Call.replies PlainPool.answer .empty calls
    replies = plainReplies ∧ chunk.constants.toList = pool.constants ∧
      chunk.code.toList = pool.code ∧ chunk.Pooled := by
  obtain ⟨same, indexed⟩ := indexed_empty.replies_plain calls
  have start : empty.plain = PlainPool.empty := rfl
  rw [start] at same
  rw [same]
  exact ⟨rfl, rfl, rfl, indexed.pooled⟩

end Chunk

end ClamSyntax
