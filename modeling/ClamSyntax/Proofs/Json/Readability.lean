import ClamSyntax.Json
import ClamSyntax.Proofs.Text.Decoding
import Mathlib

/-! Unique reading of indented JSON. The first character of a value shows its shape, and every
shape shows where it ends: a number before anything that is no part of one, a string at its closing
quote, an array or an object at its closing bracket. So the text determines a value in which no
number is a float, of which the text keeps neither all bits nor what is not finite. -/

namespace ClamSyntax

/-! Codes of four digits -/

private theorem Text.paddedCode_of_control {c : Char} (control : c.toNat < 0x20) :
    paddedCode c =
      ['\\', 'u', '0', '0', Nat.digitChar (c.toNat / 16), Nat.digitChar (c.toNat % 16)] := by
  have padded : ∀ code < 0x20,
      List.replicate (4 - (Nat.toDigits 16 code).length) '0' ++ Nat.toDigits 16 code =
        ['0', '0', Nat.digitChar (code / 16), Nat.digitChar (code % 16)] := by decide
  rw [paddedCode, hexDigits, padded c.toNat control]

private theorem Text.paddedCode_unique {c d : Char} {rest other : List Char}
    (control : c.toNat < 0x20)
    (controlOther : d.toNat < 0x20) (same : paddedCode c ++ rest = paddedCode d ++ other) :
    c = d ∧ rest = other := by
  rw [paddedCode_of_control control, paddedCode_of_control controlOther] at same
  simp only [List.cons_append, List.nil_append, List.cons.injEq, true_and] at same
  obtain ⟨first, second, behind⟩ := same
  have high := digitChar_injective (by omega) (by omega) first
  have low := digitChar_injective (by omega) (by omega) second
  refine ⟨Char.toNat_inj.mp ?_, behind⟩
  omega

namespace Json

open Text (Ends)

/-- The character that the letter of an escape means. -/
def escaped? : Char → Option Char
  | '"' => some '"'
  | '\\' => some '\\'
  | 'b' => some '\x08'
  | 'f' => some '\x0c'
  | 'n' => some '\n'
  | 'r' => some '\r'
  | 't' => some '\t'
  | _ => none

private theorem escaped?_of_escapeLetter? {c letter : Char}
    (escape : escapeLetter? c = some letter) :
    escaped? letter = some c := by
  unfold escapeLetter? at escape
  split at escape <;> cases escape <;> rfl

theorem quoting_legible : quoting.Legible := by
  have control {c : Char} (coded : quoting.plain c = false) : c.toNat < 0x20 :=
    Nat.not_le.mp (of_decide_eq_false coded)
  exact Text.Quoting.legible_of_meaning escaped? (fun _ _ => escaped?_of_escapeLetter?) rfl
    (by decide) (by decide) (fun _ => ⟨_, rfl⟩) fun _ _ _ _ _ coded _ codedOther same =>
      Text.paddedCode_unique (control coded) (control codedOther) same

mutual

/-- No number in the value is a float. -/
def FloatFree : Json → Prop
  | .float _ => False
  | .array items => ItemsFloatFree items
  | .object members => MembersFloatFree members
  | .integer _ | .bool _ | .string _ => True

def ItemsFloatFree : List Json → Prop
  | [] => True
  | item :: rest => item.FloatFree ∧ ItemsFloatFree rest

def MembersFloatFree : List (String × Json) → Prop
  | [] => True
  | (_, value) :: rest => value.FloatFree ∧ MembersFloatFree rest

end

/-! Shapes -/

/-- What a value is, as far as its first character says it. -/
inductive Shape where
  | number | bool (truth : Bool) | string | array | object

/-- The shape of the values that are written with this character in front. -/
def Shape.ofFirst (c : Char) : Shape :=
  if c = '"' then string
  else if c = '[' then array
  else if c = '{' then object
  else if c = 't' then bool true
  else if c = 'f' then bool false
  else number

def shape : Json → Shape
  | .integer _ | .float _ => .number
  | .bool truth => .bool truth
  | .string _ => .string
  | .array _ => .array
  | .object _ => .object

private theorem Shape.ofFirst_of_integerPart {c : Char} (part : Text.isIntegerPart c = true) :
    ofFirst c = number := by
  have apart : ∀ other ∈ ['"', '[', '{', 't', 'f'], c ≠ other := by
    rintro other member rfl
    have outside : ['"', '[', '{', 't', 'f'].all fun other => !Text.isIntegerPart other := by decide
    have noPart := List.all_eq_true.mp outside c member
    rw [part] at noPart
    cases noPart
  simp only [List.forall_mem_cons, List.not_mem_nil, false_implies, implies_true, and_true] at apart
  obtain ⟨quote, bracket, brace, true_, false_⟩ := apart
  rw [ofFirst, if_neg quote, if_neg bracket, if_neg brace, if_neg true_, if_neg false_]

variable {style : Style} {depth : Nat}

private theorem write_starts {json : Json} (floatFree : json.FloatFree) (style : Style)
    (depth : Nat) :
    ∃ first tail, json.write style depth = first :: tail ∧ Shape.ofFirst first = json.shape := by
  cases json with
  | float number => exact floatFree.elim
  | integer number =>
    obtain ⟨first, tail, written⟩ := List.exists_cons_of_ne_nil (Text.toList_integer_ne_nil number)
    have part := Text.integer_parts number first (written ▸ List.mem_cons_self)
    refine ⟨first, tail, ?_, Shape.ofFirst_of_integerPart part⟩
    rw [write, written]
  | bool truth => cases truth <;> exact ⟨_, _, by rw [write]; rfl, rfl⟩
  | string text => exact ⟨_, _, by rw [write]; rfl, rfl⟩
  | array items => cases items <;> exact ⟨_, _, by rw [write], rfl⟩
  | object members => cases members <;> exact ⟨_, _, by rw [write], rfl⟩

theorem shape_of_write {first second : Json} {rest other : List Char}
    (floatFree : first.FloatFree) (floatFreeOther : second.FloatFree)
    (same : first.write style depth ++ rest = second.write style depth ++ other) :
    first.shape = second.shape := by
  obtain ⟨begin, tail, written, shape⟩ := write_starts floatFree style depth
  obtain ⟨start, behind, writtenOther, shapeOther⟩ := write_starts floatFreeOther style depth
  rw [written, writtenOther] at same
  obtain ⟨rfl, -⟩ := List.cons.inj same
  exact shape.symm.trans shapeOther

/-! Values, items and members -/

/-- What is written for the value, in front of a text that does not go on as a number does,
determines the value and the text. -/
def Determined (first : Json) : Prop :=
  ∀ ⦃second : Json⦄ ⦃depth : Nat⦄ ⦃rest other : List Char⦄, first.FloatFree → second.FloatFree →
    Ends Text.isIntegerPart rest → Ends Text.isIntegerPart other →
      first.write .indented depth ++ rest = second.write .indented depth ++ other →
        first = second ∧ rest = other

/-- What is written for items up to the closing bracket determines them. -/
def ItemsDetermined (items : List Json) : Prop :=
  ∀ ⦃others : List Json⦄ ⦃depth : Nat⦄ ⦃rest other : List Char⦄,
    ItemsFloatFree items → ItemsFloatFree others →
      writeItems .indented depth items ++ ']' :: rest =
        writeItems .indented depth others ++ ']' :: other → items = others ∧ rest = other

/-- What is written for members up to the closing brace determines them. -/
def MembersDetermined (members : List (String × Json)) : Prop :=
  ∀ ⦃others : List (String × Json)⦄ ⦃depth : Nat⦄ ⦃rest other : List Char⦄,
    MembersFloatFree members → MembersFloatFree others →
      writeMembers .indented depth members ++ '}' :: rest =
        writeMembers .indented depth others ++ '}' :: other → members = others ∧ rest = other

private theorem writeItems_ends (depth : Nat) (items : List Json) (rest : List Char) :
    Ends Text.isIntegerPart (writeItems .indented depth items ++ rest) := by
  cases items <;> rw [writeItems] <;> rintro c ⟨⟩ <;> rfl

private theorem writeMembers_ends (depth : Nat) (members : List (String × Json))
    (rest : List Char) :
    Ends Text.isIntegerPart (writeMembers .indented depth members ++ rest) := by
  cases members with
  | nil =>
    rw [writeMembers]
    rintro c ⟨⟩
    rfl
  | cons member members =>
    obtain ⟨name, value⟩ := member
    rw [writeMembers]
    rintro c ⟨⟩
    rfl

private theorem writeItems_of_array {item head : Json} {items others : List Json}
    {rest other : List Char}
    (same : (array (item :: items)).write style depth ++ rest =
      (array (head :: others)).write style depth ++ other) :
    writeItems style depth (item :: items) ++ ']' :: rest =
      writeItems style depth (head :: others) ++ ']' :: other := by
  simp only [write, writeItems, List.cons_append, List.append_assoc, List.nil_append] at same ⊢
  exact congrArg (',' :: ·) (List.cons.inj same).2

private theorem writeMembers_of_object {member head : String × Json}
    {members others : List (String × Json)}
    {rest other : List Char}
    (same : (object (member :: members)).write style depth ++ rest =
      (object (head :: others)).write style depth ++ other) :
    writeMembers style depth (member :: members) ++ '}' :: rest =
      writeMembers style depth (head :: others) ++ '}' :: other := by
  simp only [write, writeMembers, List.cons_append, List.append_assoc, List.nil_append] at same ⊢
  exact congrArg (',' :: ·) (List.cons.inj same).2

theorem integer_determined (number : Int) : (integer number).Determined := by
  intro second depth rest other floatFree floatFreeOther ends endsOther same
  have shapes := shape_of_write floatFree floatFreeOther same
  cases second with
  | integer numberOther =>
    rw [write, write] at same
    obtain ⟨digits, behind⟩ := Text.run_unique (Text.integer_parts number) ends
      (Text.integer_parts numberOther) endsOther same
    exact ⟨congrArg integer (Text.toList_integer_injective digits), behind⟩
  | float => exact floatFreeOther.elim
  | _ => cases shapes

theorem bool_determined (truth : Bool) : (bool truth).Determined := by
  intro second depth rest other floatFree floatFreeOther _ _ same
  have shapes := shape_of_write floatFree floatFreeOther same
  cases second with
  | bool =>
    cases shapes
    exact ⟨rfl, List.append_cancel_left same⟩
  | _ => cases shapes

theorem string_determined (text : String) : (string text).Determined := by
  intro second depth rest other floatFree floatFreeOther _ _ same
  have shapes := shape_of_write floatFree floatFreeOther same
  cases second with
  | string textOther =>
    rw [write, write] at same
    obtain ⟨texts, behind⟩ := quoting_legible.quote_selfDelimiting same
    exact ⟨congrArg string (String.toList_inj.mp texts), behind⟩
  | _ => cases shapes

theorem array_determined {items : List Json} (determined : ItemsDetermined items) :
    (array items).Determined := by
  intro second depth rest other floatFree floatFreeOther _ _ same
  have shapes := shape_of_write floatFree floatFreeOther same
  cases second with
  | array others =>
    cases items with
    | nil =>
      cases others with
      | nil => exact ⟨rfl, List.append_cancel_left same⟩
      | cons head others =>
        simp only [write, List.cons_append] at same
        cases (List.cons.inj (List.cons.inj same).2).1
    | cons item items =>
      cases others with
      | nil =>
        simp only [write, List.cons_append] at same
        cases (List.cons.inj (List.cons.inj same).2).1
      | cons head others =>
        obtain ⟨listed, behind⟩ := determined floatFree floatFreeOther (writeItems_of_array same)
        exact ⟨congrArg array listed, behind⟩
  | _ => cases shapes

theorem object_determined {members : List (String × Json)}
    (determined : MembersDetermined members) : (object members).Determined := by
  intro second depth rest other floatFree floatFreeOther _ _ same
  have shapes := shape_of_write floatFree floatFreeOther same
  cases second with
  | object others =>
    cases members with
    | nil =>
      cases others with
      | nil => exact ⟨rfl, List.append_cancel_left same⟩
      | cons head others =>
        simp only [write, List.cons_append] at same
        cases (List.cons.inj (List.cons.inj same).2).1
    | cons member members =>
      cases others with
      | nil =>
        simp only [write, List.cons_append] at same
        cases (List.cons.inj (List.cons.inj same).2).1
      | cons head others =>
        obtain ⟨listed, behind⟩ := determined floatFree floatFreeOther (writeMembers_of_object same)
        exact ⟨congrArg object listed, behind⟩
  | _ => cases shapes

theorem no_items_determined : ItemsDetermined [] := by
  intro others depth rest other _ _ same
  cases others with
  | nil =>
    have ended := List.append_cancel_left same
    exact ⟨rfl, (List.cons.inj ended).2⟩
  | cons head others =>
    simp only [writeItems, List.cons_append] at same
    cases (List.cons.inj same).1

theorem items_determined {item : Json} {items : List Json} (determined : item.Determined)
    (determinedRest : ItemsDetermined items) : ItemsDetermined (item :: items) := by
  intro others depth rest other floatFree floatFreeOther same
  cases others with
  | nil =>
    simp only [writeItems, List.cons_append] at same
    cases (List.cons.inj same).1
  | cons head others =>
    simp only [writeItems, List.cons_append, List.append_assoc] at same
    have written := List.append_cancel_left (List.cons.inj same).2
    obtain ⟨rfl, behind⟩ := determined floatFree.1 floatFreeOther.1
      (writeItems_ends depth items _) (writeItems_ends depth others _) written
    obtain ⟨rfl, ended⟩ := determinedRest floatFree.2 floatFreeOther.2 behind
    exact ⟨rfl, ended⟩

theorem no_members_determined : MembersDetermined [] := by
  intro others depth rest other _ _ same
  cases others with
  | nil =>
    have ended := List.append_cancel_left same
    exact ⟨rfl, (List.cons.inj ended).2⟩
  | cons head others =>
    simp only [writeMembers, List.cons_append] at same
    cases (List.cons.inj same).1

theorem members_determined {name : String} {value : Json} {members : List (String × Json)}
    (determined : value.Determined) (determinedRest : MembersDetermined members) :
    MembersDetermined ((name, value) :: members) := by
  intro others depth rest other floatFree floatFreeOther same
  cases others with
  | nil =>
    simp only [writeMembers, List.cons_append] at same
    cases (List.cons.inj same).1
  | cons head others =>
    obtain ⟨nameOther, valueOther⟩ := head
    simp only [writeMembers, List.cons_append, List.append_assoc] at same
    have written := List.append_cancel_left (List.cons.inj same).2
    obtain ⟨names, valued⟩ := quoting_legible.quote_selfDelimiting written
    cases String.toList_inj.mp names
    obtain ⟨rfl, behind⟩ := determined floatFree.1 floatFreeOther.1
      (writeMembers_ends depth members _) (writeMembers_ends depth others _)
      (List.append_cancel_left valued)
    obtain ⟨rfl, ended⟩ := determinedRest floatFree.2 floatFreeOther.2 behind
    exact ⟨rfl, ended⟩

mutual

private theorem determined : ∀ json : Json, json.Determined
  | .integer number => integer_determined number
  | .float _ => fun _ _ _ _ floatFree => floatFree.elim
  | .bool truth => bool_determined truth
  | .string text => string_determined text
  | .array items => array_determined (itemsDetermined items)
  | .object members => object_determined (membersDetermined members)

theorem itemsDetermined : ∀ items : List Json, ItemsDetermined items
  | [] => no_items_determined
  | item :: items => items_determined item.determined (itemsDetermined items)

theorem membersDetermined : ∀ members : List (String × Json), MembersDetermined members
  | [] => no_members_determined
  | (_, value) :: members => members_determined value.determined (membersDetermined members)

end

/-- The indented text determines a value without floats. -/
theorem indented_inj {first second : Json} (floatFree : first.FloatFree)
    (floatFreeOther : second.FloatFree) : first.indented = second.indented ↔ first = second := by
  refine ⟨fun same => ?_, congrArg indented⟩
  have noMore : Ends Text.isIntegerPart [] := nofun
  have written : first.write .indented 0 ++ [] = second.write .indented 0 ++ [] :=
    congrArg (· ++ []) (String.ofList_injective same)
  exact (first.determined floatFree floatFreeOther noMore noMore written).1

end Json

end ClamSyntax
