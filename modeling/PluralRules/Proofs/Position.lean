import PluralRules.Proofs.Reading.Fault

/-!
The places of syntax errors.

The report of a fault counts the bytes in front of it. The text in front of a fault is found at
that count again, since no character is cut.

* `SyntaxError.position_ofFault`: the position of a fault is the length of the text in front of it.
* `Rule.position_not_past_fault`: the text in front of a reported position can be extended to a
  text with the structure of a rule.
-/

namespace PluralRules

lemma Text.byteLength_eq (s : List Char) : Text.byteLength s = (String.ofList s).utf8ByteSize := by
  induction s with
  | nil => rfl
  | cons c s ih =>
      have hcons : Text.byteLength (c :: s) = c.utf8Size + Text.byteLength s := List.sum_cons
      rw [hcons, ih, String.ofList_cons, String.utf8ByteSize_append, String.utf8ByteSize_singleton]

/-- What stands in front of a fault has the length that is reported. -/
lemma SyntaxError.position_ofFault (s : List Char) (fault : Fault) :
    (ofFault (s ++ fault.remaining) fault).position = (String.ofList s).utf8ByteSize := by
  rw [ofFault, Text.byteLength_eq, Text.byteLength_eq, String.ofList_append,
    String.utf8ByteSize_append, Nat.add_sub_cancel]

namespace Rule

/-- **No position past the first fault of structure**: a text is read as a rule exactly if it is in
the language of rules with all limits. The position of the error for any other text is a place
between two characters or at an end, and the text in front of it can be extended to one of the
language without the limits. -/
theorem position_not_past_fault (s : String) :
    ((∃ r, Rule.ofText s = .ok r) ↔ s.toList ∈ Grammar.rule True) ∧
      ∀ e, Rule.ofText s = .error e →
        e.position ≤ s.utf8ByteSize ∧ String.Pos.Raw.IsValid s ⟨e.position⟩ ∧
        ∃ front rest : String, s = front ++ rest ∧ front.utf8ByteSize = e.position ∧
          ∃ more : String, (front ++ more).toList ∈ Grammar.rule False := by
  constructor
  · rw [Grammar.mem_rule_iff]
    exact exists_congr fun r => ofText_eq_ok_iff
  · intro e he
    rw [Rule.ofText] at he
    cases hread : Rule.read s.toList with
    | ok r => simp [hread, Except.mapError] at he
    | error fault =>
        rw [hread] at he
        obtain rfl : SyntaxError.ofFault s.toList fault = e := Except.error.inj he
        obtain ⟨t, ⟨u, hu⟩, hs⟩ := leaves_of_read_eq_error hread
        have hsplit : s = String.ofList t ++ String.ofList fault.remaining := by
          rw [← String.ofList_append, hs, String.ofList_toList]
        have hposition : (SyntaxError.ofFault s.toList fault).position =
            (String.ofList t).utf8ByteSize := by
          rw [← hs]
          exact SyntaxError.position_ofFault t fault
        refine ⟨?_, ?_, String.ofList t, String.ofList fault.remaining, hsplit, hposition.symm,
          String.ofList u, ?_⟩
        · rw [hposition]
          conv_rhs => rw [hsplit, String.utf8ByteSize_append]
          exact Nat.le_add_right _ _
        · rw [String.Pos.Raw.isValid_iff_exists_append]
          exact ⟨_, _, hsplit, congrArg String.Pos.Raw.mk hposition⟩
        · rw [← String.ofList_append, String.toList_ofList]
          exact hu

/-- Bounds that are inverted are reported at the second one, where another bound could stand. -/
theorem position_not_past_fault_inverted :
    Rule.ofText "n mod 10 in 2..4, 9..5 or v is 0" = .error ⟨21, .invertedRange, some "5"⟩ ∧
      ∃ front rest : String, "n mod 10 in 2..4, 9..5 or v is 0" = front ++ rest ∧
        front.utf8ByteSize = 21 ∧ ∃ more : String, (front ++ more).toList ∈ Grammar.rule False := by
  have hread : Rule.ofText "n mod 10 in 2..4, 9..5 or v is 0" =
      .error ⟨21, .invertedRange, some "5"⟩ := rfl
  exact ⟨hread, ((position_not_past_fault _).2 _ hread).2.2⟩

end Rule

end PluralRules
