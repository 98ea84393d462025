import ClamSyntax.Proofs.Parser.Soundness

namespace ClamSyntax.Parser

variable {tokens rest : List Token}

theorem Accounts.split {category : Category α} {reader : List Token → Reading α} {value : α}
    (account : Accounts category [] reader tokens) (read : reader tokens = .ok (value, rest)) :
    tokens = category.tokens value ++ rest := by
  obtain ⟨taken, split, spelled, -⟩ := account.read read
  rw [split, spelled, List.nil_append]

theorem readSymbol_split {fixed : Symbol} {start : Nat}
    (read : readSymbol fixed tokens = .ok (start, rest)) : tokens = fixed.at start :: rest :=
  (symbol_accounts fixed tokens).split read

theorem readName_split {name : Name} (read : readName tokens = .ok (name, rest)) :
    tokens = name.token :: rest :=
  (name_accounts tokens).split read

theorem readParameters_split {more : List Name × Nat}
    (read : readParameters tokens = .ok (more, rest)) :
    tokens = more.1.map Name.token ++ Symbol.arrow.at more.2 :: rest := by
  have split := (parameters_accounts tokens).split read
  rw [split]
  exact List.append_assoc ..

theorem readExpression_split {least : Nat} {phrase : Phrase}
    (read : readExpression least tokens = .ok (phrase, rest)) : tokens = phrase.tokens ++ rest :=
  (expression_accounts_all least tokens).split read

theorem readTerm_split {phrase : Phrase} (read : readTerm tokens = .ok (phrase, rest)) :
    tokens = phrase.tokens ++ rest :=
  (term_accounts (accountsBelow tokens.length) (Nat.le_refl _)).split read

theorem readItems_split {items : Items} (read : readItems tokens = .ok (items, rest)) :
    tokens = items.tokens ++ rest :=
  ((accountsBelow (tokens.length + 1)).items (Nat.lt_succ_self _)).split read

theorem readBindings_split {bindings : Bindings}
    (read : readBindings tokens = .ok (bindings, rest)) : tokens = bindings.tokens ++ rest :=
  ((accountsBelow (tokens.length + 1)).bindings (Nat.lt_succ_self _)).split read

end ClamSyntax.Parser
