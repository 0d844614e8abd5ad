import Intcode.Proofs.LineGrammar

/-!
# What a line is read as

The other direction of the grammar: not which lines can be read, but what is
known of a line that was. Each function of the parser has an inversion lemma
(`..._cases`) that says how it came to its result; nothing here unfolds a
function of the parser twice.

What the rest of the assembler relies on is in `fits_of_read`. An instruction has
as many operands as its opcode has parameters, so the width of a body, which is
taken from the opcode, is the number of words that it is encoded as. A body is
not empty. And a body has no more words than the line has characters, since
every word needs a token of its own.
-/

namespace Intcode.Assembly

/-! ## Lexemes and tokens -/

/-- Every lexeme has at least one character of the text. -/
theorem length_lexemes_le (start : Nat) (text : List Char) :
    (lexemes start text).length ≤ text.length := by
  fun_induction lexemes start text with
  | case1 => exact Nat.le_refl 0
  | case2 start c rest text others hreading ih =>
      exact Nat.le_succ_of_le (Nat.le_trans ih (length_remainder_le c rest))
  | case3 start c rest text others token hreading ih
  | case4 start c rest text others hreading ih =>
      exact Nat.succ_le_succ (Nat.le_trans ih (length_remainder_le c rest))

theorem length_of_tokens {ls : List Lexeme} {ts : List Placed}
    (h : Line.tokens ls = .ok ts) : ts.length = ls.length := by
  induction ls generalizing ts with
  | nil =>
      cases h
      rfl
  | cons l ls ih =>
      rw [Line.tokens] at h
      split at h
      · cases h
      · obtain ⟨ts, hts, rfl⟩ := map_eq_ok_iff.mp h
        rw [List.length_cons, List.length_cons, ih hts]

/-! ## Operands and data words -/

section Parts

variable {finish : Nat} {ts : List Placed}

theorem operands_cases {os : List Operand} (h : Line.operands finish ts = .ok os) :
    ∃ o rest, Line.operand finish ts = .ok (o, rest)
      ∧ (rest = [] ∧ os = [o]
        ∨ ∃ t tail os', rest = t :: tail ∧ Line.operands finish tail = .ok os'
            ∧ os = o :: os') := by
  rw [Line.operands] at h
  split at h
  · cases h
  next o hoperand =>
    cases h
    exact ⟨o, [], hoperand, .inl ⟨rfl, rfl⟩⟩
  next o t tail hoperand =>
    split at h
    next =>
      obtain ⟨os', hos', rfl⟩ := map_eq_ok_iff.mp h
      exact ⟨o, _, hoperand, .inr ⟨t, tail, os', rfl, hos', rfl⟩⟩
    next => cases h

theorem exprs_cases {es : List Expr} (h : Line.exprs finish ts = .ok es) :
    ∃ t rest e rest', ts = t :: rest ∧ Line.expr finish [t] = .ok (e, rest')
      ∧ (rest = [] ∧ es = [e]
        ∨ ∃ comma tail es', rest = comma :: tail ∧ Line.exprs finish tail = .ok es'
            ∧ es = e :: es') := by
  unfold Line.exprs at h
  split at h
  · cases h
  next t =>
    obtain ⟨⟨e, rest'⟩, he, rfl⟩ := map_eq_ok_iff.mp h
    exact ⟨t, [], e, rest', rfl, he, .inl ⟨rfl, rfl⟩⟩
  next t comma tail =>
    obtain ⟨⟨e, rest'⟩, he, h⟩ := bind_eq_ok_iff.mp h
    obtain ⟨-, -, h⟩ := bind_eq_ok_iff.mp h
    obtain ⟨es', hes', h⟩ := bind_eq_ok_iff.mp h
    cases h
    exact ⟨t, _, e, rest', rfl, he, .inr ⟨comma, tail, es', rfl, hes', rfl⟩⟩

theorem length_of_operands {os : List Operand} (h : Line.operands finish ts = .ok os) :
    os.length ≤ ts.length := by
  induction os generalizing ts with
  | nil => exact Nat.zero_le _
  | cons o os ih =>
      obtain ⟨_, rest, hoperand, ⟨-, hos⟩ | ⟨t, tail, _, rfl, htail, hos⟩⟩ := operands_cases h
      · cases hos
        exact Nat.zero_lt_of_lt (Line.length_of_operand hoperand)
      · cases hos
        have hlt := Line.length_of_operand hoperand
        have hle := ih htail
        rw [List.length_cons] at hlt ⊢
        omega

theorem length_of_exprs {es : List Expr} (h : Line.exprs finish ts = .ok es) :
    0 < es.length ∧ es.length ≤ ts.length := by
  induction es generalizing ts with
  | nil =>
      obtain ⟨_, _, _, _, -, -, ⟨-, hes⟩ | ⟨_, _, _, -, -, hes⟩⟩ := exprs_cases h <;> cases hes
  | cons e es ih =>
      refine ⟨Nat.zero_lt_succ _, ?_⟩
      obtain ⟨t, _, _, _, rfl, -, ⟨-, hes⟩ | ⟨comma, tail, _, rfl, htail, hes⟩⟩ := exprs_cases h
      · cases hes
        exact Nat.succ_le_succ (Nat.zero_le _)
      · cases hes
        have hle := (ih htail).2
        simp only [List.length_cons]
        omega

/-! ## Bodies -/

/-- What is known of a body that was read from something of the given size. -/
structure Body.Fits (b : Body) (size : Nat) : Prop where
  saturated : b.Saturated
  nonempty : 0 < b.width
  width_le : b.width ≤ size

theorem fits_of_instruction {mnemonic : String} {b : Body}
    (h : Line.instruction finish mnemonic ts = .ok b) : b.Fits (ts.length + 1) := by
  obtain ⟨opcode, os, -, hos, hlength, -, rfl⟩ := (instruction_eq_ok_iff finish).mp h
  have hle : os.length ≤ ts.length := by
    split at hos
    · cases hos
      exact Nat.zero_le _
    · exact length_of_operands hos
  have hwidth : (Body.instruction opcode os).width = 1 + os.length := by
    rw [Body.width, Opcode.width, hlength]
  exact ⟨hlength, by omega, by omega⟩

theorem fits_of_body {b : Body} (h : Line.body finish ts = .ok (some b)) :
    b.Fits ts.length := by
  unfold Line.body at h
  split at h
  next => cases h
  next =>
    obtain ⟨_, hb, ⟨⟩⟩ := map_eq_ok_iff.mp h
    exact fits_of_instruction hb
  next =>
    split at h
    · obtain ⟨es, hes, ⟨⟩⟩ := map_eq_ok_iff.mp h
      obtain ⟨hpos, hle⟩ := length_of_exprs hes
      exact ⟨trivial, hpos, Nat.le_succ_of_le hle⟩
    · cases h
  next => cases h

/-! ## Lines -/

theorem length_of_labels {names : List String} {rest : List Placed}
    (h : Line.labels ts = .ok (names, rest)) : rest.length ≤ ts.length := by
  fun_induction Line.labels ts generalizing names with
  | case1 => cases h
  | case2 name column column' tail hname ih =>
      obtain ⟨⟨names, _⟩, htail, ⟨⟩⟩ := map_eq_ok_iff.mp h
      exact Nat.le_trans (ih htail) (Nat.le_add_right _ 2)
  | case3 =>
      cases h
      exact Nat.le_refl _

theorem content_cases {c : Content} (h : Line.content ts = .ok (some c)) :
    ∃ rest, ts ≠ [] ∧ Line.labels ts = .ok (c.labels, rest)
      ∧ Line.body (Line.endColumn ts) rest = .ok c.body := by
  rw [Line.content] at h
  split at h
  · cases h
  next hne =>
    obtain ⟨⟨labels, rest⟩, hlabels, h⟩ := bind_eq_ok_iff.mp h
    obtain ⟨body, hbody, h⟩ := bind_eq_ok_iff.mp h
    cases h
    exact ⟨rest, fun hnil => hne (by rw [hnil]; rfl), hlabels, hbody⟩

theorem fits_of_read {text : List Char} {c : Content} {b : Body}
    (h : Line.read text = .ok (some c)) (hb : c.body = some b) : b.Fits text.length := by
  obtain ⟨ts, hts, h⟩ := bind_eq_ok_iff.mp h
  obtain ⟨rest, -, hlabels, hbody⟩ := content_cases h
  rw [hb] at hbody
  have hfits := fits_of_body hbody
  have hrest := length_of_labels hlabels
  have hlength := length_of_tokens hts
  have hlexemes := length_lexemes_le 0 text
  exact { hfits with width_le := Nat.le_trans hfits.width_le (by omega) }

end Parts

end Intcode.Assembly
