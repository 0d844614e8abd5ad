import Intcode.Proofs.LineGrammar

/-!
# The syntax of a line

The lists of tokens that are lines, as a grammar (`IsLine`). What the parser refuses
for its syntax is not in the grammar (`not_syntactic_of_isLine`). An instruction may
have any number of operands here, of any mode. How many it needs is not a matter of
syntax, and a line that has the wrong ones is refused for another reason.

Parts of a line are recognized from the left, and each function of the parser
takes a part whatever follows it: `…_of_is…` says that it takes what is in the
grammar and leaves the rest, `is…_of_…` that it takes nothing else.
-/

namespace Intcode.Assembly

/-! ## The grammar -/

/-- A number, or a label: any name but that of the relative base. -/
inductive IsExpr : Token → Prop where
  | number (value : Word) : IsExpr (.number value)
  | label {name : String} (h : name ≠ Line.baseName) : IsExpr (.identifier name)

/-- What may stand between the relative base and the closing bracket. -/
inductive IsOffset : List Token → Prop where
  | zero : IsOffset []
  | plus {t : Token} (h : IsExpr t) : IsOffset [.plus, t]
  | minus {value negated : Word} (h : value.neg? = some negated) :
      IsOffset [.minus, .number value]
  | negative {value : Word} (h : value.toInt < 0) : IsOffset [.number value]

inductive IsOperand : List Token → Prop where
  | immediate {t : Token} (h : IsExpr t) : IsOperand [t]
  | positional {t : Token} (h : IsExpr t) : IsOperand [.leftBracket, t, .rightBracket]
  | relative {ts : List Token} (h : IsOffset ts) :
      IsOperand (.leftBracket :: .identifier Line.baseName :: (ts ++ [.rightBracket]))

inductive IsDatum : List Token → Prop where
  | expr {t : Token} (h : IsExpr t) : IsDatum [t]

/-- One or more items with commas between them. -/
inductive Commas (item : List Token → Prop) : List Token → Prop where
  | last {ts : List Token} (h : item ts) : Commas item ts
  | more {ts rest : List Token} (h : item ts) (hrest : Commas item rest) :
      Commas item (ts ++ .comma :: rest)

/-- What may follow the labels of a line. -/
inductive IsBody : List Token → Prop where
  | nothing : IsBody []
  | bare {mnemonic : String} {opcode : Opcode}
      (hopcode : Opcode.ofMnemonic? mnemonic = some opcode) : IsBody [.identifier mnemonic]
  | instruction {mnemonic : String} {opcode : Opcode} {ts : List Token}
      (hopcode : Opcode.ofMnemonic? mnemonic = some opcode) (h : Commas IsOperand ts) :
      IsBody (.identifier mnemonic :: ts)
  | words {ts : List Token} (h : Commas IsDatum ts) :
      IsBody (.directive Line.wordDirective :: ts)

inductive IsLine : List Token → Prop where
  | body {ts : List Token} (h : IsBody ts) : IsLine ts
  | label {name : String} {ts : List Token} (hname : name ≠ Line.baseName) (h : IsLine ts) :
      IsLine (.identifier name :: .colon :: ts)

/-- Whether a problem is about the syntax of a line. -/
def Problem.Syntactic : Problem → Prop
  | misfit _ _ | unknownInstruction _ | invalidDirective _ => True
  | operandCount _ _ _ | immediateDestination _ => False

/-! ## Expressions -/

theorem IsExpr.ne_base {t : Token} (h : IsExpr t) : t ≠ .identifier Line.baseName := by
  rintro rfl
  cases h
  contradiction

section Parts

variable {finish : Nat} {ts rest : List Placed}

theorem expr_of_isExpr {t : Placed} (h : IsExpr t.token) :
    ∃ e, ∀ finish rest, Line.expr finish (t :: rest) = .ok (e, rest) := by
  obtain ⟨token, column⟩ := t
  cases h with
  | number value => exact ⟨.number value, fun finish rest => rfl⟩
  | @label name hname => exact ⟨.label name, fun finish rest => if_neg hname⟩

/-- A token that is no expression is refused as such, whatever follows. -/
theorem expr_of_not_isExpr {t : Placed} (h : ¬ IsExpr t.token) :
    ∃ m, m ≠ .missingDifference
      ∧ ∀ finish rest, Line.expr finish (t :: rest) = .error (.misfit t.column m) := by
  obtain ⟨token, column⟩ := t
  cases token with
  | number value => exact absurd (.number value) h
  | identifier name =>
      have hname : name = Line.baseName := by
        by_cases hname : name = Line.baseName
        · exact hname
        · exact absurd (.label hname) h
      exact ⟨.baseOutsideBrackets, nofun, fun finish rest => if_pos hname⟩
  | directive name | comma | colon | leftBracket | rightBracket | plus | minus | newline =>
      exact ⟨.missing .expression (some _), nofun, fun finish rest => rfl⟩

theorem isExpr_of_expr {e : Expr} (h : Line.expr finish ts = .ok (e, rest)) :
    ∃ t, ts = t :: rest ∧ IsExpr t.token := by
  cases ts with
  | nil => cases h
  | cons t ts =>
      by_cases ht : IsExpr t.token
      · obtain ⟨e', hexpr⟩ := expr_of_isExpr ht
        rw [hexpr] at h
        cases h
        exact ⟨t, rfl, ht⟩
      · obtain ⟨m, -, hexpr⟩ := expr_of_not_isExpr ht
        rw [hexpr] at h
        cases h

/-! ## Operands -/

/-- The rest of an operand after its opening bracket and the relative base. -/
def Line.offsetClosed (finish : Nat) (ts : List Placed) :
    Except Problem (Operand × List Placed) := do
  let (e, rest) ← Line.offset finish ts
  let rest ← Line.expect finish .rightBracket rest
  return (⟨.relative, e⟩, rest)

theorem operand_relative (c c' : Nat) (ts : List Placed) :
    Line.operand finish (⟨.leftBracket, c⟩ :: ⟨.identifier Line.baseName, c'⟩ :: ts)
      = Line.offsetClosed finish ts := by
  simp only [Line.operand, Line.bracketed, Line.offsetClosed, if_true]
  cases Line.offset finish ts <;> rfl

theorem operand_positional {t : Placed} (ht : t.token ≠ .identifier Line.baseName) (c : Nat)
    (ts : List Placed) :
    Line.operand finish (⟨.leftBracket, c⟩ :: t :: ts)
      = do
        let (e, rest) ← Line.expr finish (t :: ts)
        let rest ← Line.expect finish .rightBracket rest
        return (⟨.positional, e⟩, rest) := by
  obtain ⟨token, column⟩ := t
  cases token with
  | identifier name =>
      have hname : name ≠ Line.baseName := fun heq => ht (congrArg _ heq)
      simp only [Line.operand, Line.bracketed, Line.expr, hname, if_false]
      rfl
  | number value | directive name | comma | colon | leftBracket | rightBracket | plus | minus
  | newline => rfl

theorem operand_immediate {t : Placed} (ht : t.token ≠ .leftBracket) (ts : List Placed) :
    Line.operand finish (t :: ts)
      = (Line.expr finish (t :: ts)).map fun (e, rest) => (⟨.immediate, e⟩, rest) := by
  obtain ⟨token, column⟩ := t
  cases token with
  | leftBracket => exact absurd rfl ht
  | identifier name | number value | directive name | comma | colon | rightBracket | plus | minus
  | newline => rfl

theorem isToken_of_expect {token : Token} (h : Line.expect finish token ts = .ok rest) :
    ∃ c, ts = ⟨token, c⟩ :: rest := by
  unfold Line.expect at h
  split at h
  next t tail =>
    split at h
    next ht =>
      cases h
      exact ⟨t.column, congrArg (· :: rest) (by rw [← ht])⟩
    next => cases h
  next => cases h

theorem offsetClosed_of_isOffset {us : List Placed} (h : IsOffset (us.map Placed.token)) :
    ∃ o, ∀ finish c rest,
      Line.offsetClosed finish (us ++ ⟨.rightBracket, c⟩ :: rest) = .ok (o, rest) := by
  generalize hus : us.map Placed.token = tokens at h
  cases h with
  | zero =>
      obtain rfl := List.map_eq_nil_iff.mp hus
      exact ⟨_, fun finish c rest => rfl⟩
  | plus ht =>
      obtain ⟨c, _, rfl, htail⟩ := exists_of_map_cons hus
      obtain ⟨c', rfl⟩ := exists_of_map_singleton htail
      obtain ⟨e, he⟩ := expr_of_isExpr (t := ⟨_, c'⟩) ht
      refine ⟨⟨.relative, e⟩, fun finish c'' rest => ?_⟩
      simp only [Line.offsetClosed, List.cons_append, List.nil_append, Line.offset, he]
      rfl
  | @minus value negated hneg =>
      obtain ⟨c, _, rfl, htail⟩ := exists_of_map_cons hus
      obtain ⟨c', rfl⟩ := exists_of_map_singleton htail
      refine ⟨⟨.relative, .number negated⟩, fun finish c'' rest => ?_⟩
      simp only [Line.offsetClosed, List.cons_append, List.nil_append, Line.offset, hneg]
      rfl
  | @negative value hneg =>
      obtain ⟨c, rfl⟩ := exists_of_map_singleton hus
      refine ⟨⟨.relative, .number value⟩, fun finish c' rest => ?_⟩
      simp only [Line.offsetClosed, List.singleton_append, Line.offset, hneg, if_true]
      rfl

theorem isOffset_of_offset {e : Expr} (h : Line.offset finish ts = .ok (e, rest)) :
    ∃ used, ts = used ++ rest ∧ IsOffset (used.map Placed.token) := by
  unfold Line.offset at h
  split at h
  next =>
    cases h
    exact ⟨[], rfl, .zero⟩
  next c tail =>
    obtain ⟨t, rfl, ht⟩ := isExpr_of_expr h
    exact ⟨[⟨.plus, c⟩, t], rfl, .plus ht⟩
  next c value c' tail =>
    split at h
    next hneg =>
      cases h
      exact ⟨[⟨.minus, c⟩, ⟨.number value, c'⟩], rfl, .minus hneg⟩
    next => cases h
  next => cases h
  next value c tail =>
    split at h
    next hneg =>
      cases h
      exact ⟨[⟨.number value, c⟩], rfl, .negative hneg⟩
    next => cases h
  next => cases h

theorem operand_of_isOperand {us : List Placed} (h : IsOperand (us.map Placed.token)) :
    ∃ o, ∀ finish rest, Line.operand finish (us ++ rest) = .ok (o, rest) := by
  generalize hus : us.map Placed.token = tokens at h
  cases h with
  | immediate ht =>
      obtain ⟨c, rfl⟩ := exists_of_map_singleton hus
      obtain ⟨e, he⟩ := expr_of_isExpr (t := ⟨_, c⟩) ht
      refine ⟨⟨.immediate, e⟩, fun finish rest => ?_⟩
      rw [List.singleton_append, operand_immediate (by rintro rfl; cases ht), he]
      rfl
  | positional ht =>
      obtain ⟨c, _, rfl, htail⟩ := exists_of_map_cons hus
      obtain ⟨c', _, rfl, htail'⟩ := exists_of_map_cons htail
      obtain ⟨c'', rfl⟩ := exists_of_map_singleton htail'
      obtain ⟨e, he⟩ := expr_of_isExpr (t := ⟨_, c'⟩) ht
      refine ⟨⟨.positional, e⟩, fun finish rest => ?_⟩
      simp only [List.cons_append, List.nil_append]
      rw [operand_positional ht.ne_base, he]
      rfl
  | relative hoffset =>
      obtain ⟨c, _, rfl, htail⟩ := exists_of_map_cons hus
      obtain ⟨c', _, rfl, htail'⟩ := exists_of_map_cons htail
      obtain ⟨vs, _, rfl, rfl, hlast⟩ := List.map_eq_append_iff.mp htail'
      obtain ⟨c'', rfl⟩ := exists_of_map_singleton hlast
      obtain ⟨o, ho⟩ := offsetClosed_of_isOffset hoffset
      refine ⟨o, fun finish rest => ?_⟩
      simp only [List.cons_append, List.append_assoc, List.nil_append]
      rw [operand_relative, ho]

theorem isOperand_of_operand {o : Operand} (h : Line.operand finish ts = .ok (o, rest)) :
    ∃ used, ts = used ++ rest ∧ IsOperand (used.map Placed.token) := by
  cases ts with
  | nil => cases h
  | cons t ts =>
      by_cases ht : t.token = .leftBracket
      · obtain ⟨_, c⟩ := t
        subst ht
        cases ts with
        | nil => cases h
        | cons u ts =>
            by_cases hu : u.token = .identifier Line.baseName
            · obtain ⟨_, c'⟩ := u
              subst hu
              rw [operand_relative] at h
              obtain ⟨⟨e, _⟩, hoffset, h⟩ := bind_eq_ok_iff.mp h
              obtain ⟨_, hclose, h⟩ := bind_eq_ok_iff.mp h
              cases h
              obtain ⟨c'', rfl⟩ := isToken_of_expect hclose
              obtain ⟨used, rfl, hused⟩ := isOffset_of_offset hoffset
              refine ⟨⟨.leftBracket, c⟩ :: ⟨.identifier Line.baseName, c'⟩
                :: (used ++ [⟨.rightBracket, c''⟩]), ?_, ?_⟩
              · simp
              · simpa using .relative hused
            · rw [operand_positional hu] at h
              obtain ⟨⟨e, _⟩, hexpr, h⟩ := bind_eq_ok_iff.mp h
              obtain ⟨_, hclose, h⟩ := bind_eq_ok_iff.mp h
              cases h
              obtain ⟨c'', rfl⟩ := isToken_of_expect hclose
              obtain ⟨_, ⟨⟩, hused⟩ := isExpr_of_expr hexpr
              exact ⟨[⟨.leftBracket, c⟩, u, ⟨.rightBracket, c''⟩], rfl, .positional hused⟩
      · rw [operand_immediate ht] at h
        obtain ⟨⟨e, _⟩, hexpr, ⟨⟩⟩ := map_eq_ok_iff.mp h
        obtain ⟨_, ⟨⟩, hused⟩ := isExpr_of_expr hexpr
        exact ⟨[t], rfl, .immediate hused⟩

/-! ## Lists with commas -/

theorem operands_of_error {p : Problem} (h : Line.operand finish ts = .error p) :
    Line.operands finish ts = .error p := by
  rw [Line.operands]
  split
  next heq => rw [h] at heq; cases heq; rfl
  next heq => rw [h] at heq; cases heq
  next heq => rw [h] at heq; cases heq

theorem operands_of_other {o : Operand} {t : Placed}
    (h : Line.operand finish ts = .ok (o, t :: rest)) (ht : t.token ≠ .comma) :
    Line.operands finish ts
      = .error (.misfit t.column (.missing (.token .comma) (some t.token))) := by
  rw [Line.operands]
  split
  next heq => rw [h] at heq; cases heq
  next heq => rw [h] at heq; cases heq
  next heq => rw [h] at heq; cases heq; exact if_neg ht

theorem operands_of_commas {us : List Placed} (h : Commas IsOperand (us.map Placed.token))
    (finish : Nat) : ∃ os, Line.operands finish us = .ok os := by
  generalize hus : us.map Placed.token = tokens at h
  induction h generalizing us with
  | last hitem =>
      subst hus
      obtain ⟨o, ho⟩ := operand_of_isOperand hitem
      have hlast := ho finish []
      rw [List.append_nil] at hlast
      exact ⟨[o], operands_of_last finish hlast⟩
  | more hitem hrest ih =>
      obtain ⟨vs, _, rfl, rfl, htail⟩ := List.map_eq_append_iff.mp hus
      obtain ⟨c, ws, rfl, hws⟩ := exists_of_map_cons htail
      obtain ⟨o, ho⟩ := operand_of_isOperand hitem
      obtain ⟨os, hos⟩ := ih hws
      exact ⟨o :: os, by rw [operands_of_comma finish (ho finish _), hos]; rfl⟩

/-- The first data word decides whether the list goes on. -/
theorem exprs_cons_cons {t c : Placed} (ht : IsExpr t.token) (hc : c.token = .comma)
    (finish : Nat) (ts : List Placed) :
    ∃ e, Line.exprs finish (t :: c :: ts) = (Line.exprs finish ts).map (e :: ·) := by
  obtain ⟨e, he⟩ := expr_of_isExpr ht
  refine ⟨e, ?_⟩
  rw [Line.exprs, he, Line.expect, if_pos hc]
  rfl

theorem exprs_of_commas {us : List Placed} (h : Commas IsDatum (us.map Placed.token))
    (finish : Nat) : ∃ es, Line.exprs finish us = .ok es := by
  generalize hus : us.map Placed.token = tokens at h
  induction h generalizing us with
  | last hitem =>
      obtain ⟨ht⟩ := hitem
      obtain ⟨c, rfl⟩ := exists_of_map_singleton hus
      obtain ⟨e, he⟩ := expr_of_isExpr (t := ⟨_, c⟩) ht
      exact ⟨[e], by rw [Line.exprs, he]; rfl⟩
  | more hitem hrest ih =>
      obtain ⟨ht⟩ := hitem
      obtain ⟨c, _, rfl, htail⟩ := exists_of_map_cons hus
      obtain ⟨c', ws, rfl, hws⟩ := exists_of_map_cons htail
      obtain ⟨es, hes⟩ := ih hws
      obtain ⟨e, he⟩ := exprs_cons_cons (t := ⟨_, c⟩) (c := ⟨.comma, c'⟩) ht rfl finish ws
      exact ⟨e :: es, by rw [he, hes]; rfl⟩

/-! ## Lines -/

/-- The labels and the body of a line. -/
def Line.parts (finish : Nat) (ts : List Placed) :
    Except Problem (List String × Option Body) := do
  let (names, rest) ← Line.labels ts
  let body ← Line.body finish rest
  return (names, body)

theorem content_eq_error_iff {p : Problem} :
    Line.content ts = .error p ↔ Line.parts (Line.endColumn ts) ts = .error p := by
  cases ts with
  | nil => exact ⟨nofun, nofun⟩
  | cons t ts =>
      rw [Line.content, if_neg (by simp), Line.parts]
      cases Line.labels (t :: ts) with
      | error p' => simp [bind, Except.bind]
      | ok r =>
          cases hbody : Line.body (Line.endColumn (t :: ts)) r.2 <;>
            simp [bind, Except.bind, pure, Except.pure, hbody]

theorem parts_label {name : String} (hname : name ≠ Line.baseName) (c c' : Nat)
    (ts : List Placed) :
    Line.parts finish (⟨.identifier name, c⟩ :: ⟨.colon, c'⟩ :: ts)
      = (Line.parts finish ts).map fun (names, body) => (name :: names, body) := by
  rw [Line.parts, Line.labels, if_neg hname, Line.parts]
  cases Line.labels ts with
  | error p => rfl
  | ok r =>
      simp only [bind, Except.bind, Except.map]
      cases Line.body finish r.2 <;> rfl

theorem parts_of_noLabel (h : NoLabel ts) :
    Line.parts finish ts = (Line.body finish ts).map ([], ·) := by
  rw [Line.parts, labels_of_noLabel h]
  simp only [bind, Except.bind]
  cases Line.body finish ts <;> rfl

theorem Commas.exists_item {item : List Token → Prop} {tokens : List Token}
    (h : Commas item tokens) : ∃ first after, tokens = first ++ after ∧ item first := by
  cases h with
  | last hitem => exact ⟨tokens, [], (List.append_nil _).symm, hitem⟩
  | more hitem hrest => exact ⟨_, _, rfl, hitem⟩

/-- No list of operands starts with a colon. -/
theorem Commas.ne_colon {tokens : List Token} (h : Commas IsOperand tokens) (after : List Token) :
    tokens ≠ .colon :: after := by
  rintro rfl
  obtain ⟨first, _, heq, hitem⟩ := h.exists_item
  cases hitem with
  | immediate ht =>
      obtain ⟨rfl, -⟩ := List.cons.inj heq
      cases ht
  | positional ht => cases heq
  | relative hoffset => cases heq

theorem noLabel_of_isBody {us : List Placed} (h : IsBody (us.map Placed.token)) : NoLabel us := by
  rintro name c c' rest rfl
  generalize htokens : List.map Placed.token _ = tokens at h
  cases h with
  | nothing => cases htokens
  | bare hopcode => cases htokens
  | instruction hopcode hoperands => exact hoperands.ne_colon _ (List.cons.inj htokens).2.symm
  | words hdata => cases htokens

/-- An instruction whose operands can be read is refused only for their number or for the
destination. -/
theorem not_syntactic_of_operands {mnemonic : String} {opcode : Opcode} {us : List Placed}
    {os : List Operand} (hopcode : Opcode.ofMnemonic? mnemonic = some opcode)
    (hos : (if us.isEmpty then .ok [] else Line.operands finish us) = .ok os) {p : Problem}
    (hp : Line.instruction finish mnemonic us = .error p) : ¬ p.Syntactic := by
  rw [instruction_eq finish hopcode, hos] at hp
  simp only [bind, Except.bind] at hp
  split at hp
  · cases hp
    exact id
  · split at hp <;> cases hp
    exact id

theorem not_syntactic_of_isBody {us : List Placed} (h : IsBody (us.map Placed.token))
    {p : Problem} (hp : Line.body finish us = .error p) : ¬ p.Syntactic := by
  generalize htokens : us.map Placed.token = tokens at h
  cases h with
  | nothing =>
      obtain rfl := List.map_eq_nil_iff.mp htokens
      cases hp
  | bare hopcode =>
      obtain ⟨c, rfl⟩ := exists_of_map_singleton htokens
      have hos : (if ([] : List Placed).isEmpty then .ok [] else Line.operands finish [])
          = .ok [] := rfl
      exact not_syntactic_of_operands hopcode hos (map_eq_error_iff.mp hp)
  | instruction hopcode hoperands =>
      obtain ⟨c, us, rfl, hus⟩ := exists_of_map_cons htokens
      subst hus
      obtain ⟨os, hos⟩ := operands_of_commas hoperands finish
      have hread : (if us.isEmpty then .ok [] else Line.operands finish us) = .ok os := by
        cases us with
        | nil => exact absurd hos (operands_nil finish os)
        | cons u us => exact hos
      exact not_syntactic_of_operands hopcode hread (map_eq_error_iff.mp hp)
  | words hdata =>
      obtain ⟨c, us, rfl, hus⟩ := exists_of_map_cons htokens
      subst hus
      obtain ⟨es, hes⟩ := exprs_of_commas hdata finish
      rw [Line.body, if_pos rfl, hes] at hp
      cases hp

/-- What is in the grammar is not refused for its syntax. -/
theorem not_syntactic_of_isLine {us : List Placed} (h : IsLine (us.map Placed.token))
    {p : Problem} (hp : Line.parts finish us = .error p) : ¬ p.Syntactic := by
  generalize htokens : us.map Placed.token = tokens at h
  induction h generalizing us with
  | body hbody =>
      subst htokens
      rw [parts_of_noLabel (noLabel_of_isBody hbody)] at hp
      exact not_syntactic_of_isBody hbody (map_eq_error_iff.mp hp)
  | label hname hline ih =>
      obtain ⟨c, _, rfl, htail⟩ := exists_of_map_cons htokens
      obtain ⟨c', us, rfl, hus⟩ := exists_of_map_cons htail
      rw [parts_label hname] at hp
      exact ih (map_eq_error_iff.mp hp) hus

end Parts

end Intcode.Assembly
