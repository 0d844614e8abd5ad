import Intcode.Proofs.LineSyntax
import Intcode.Proofs.SourceLines

/-!
# Where a line goes wrong

A line that is refused for its syntax goes wrong at the first token that cannot
follow the tokens before it (`Offends`), or else at its end. These are the columns
that the parser reports, with one exception (`parse_misfit_column`).

The parser works from left to right, so that the token at which one of its
functions gets stuck is such a token: what is in front of it could be continued,
and nothing that starts with it is taken (`Stuck`). A function gets stuck either
at a token of its own (`Stuck.refuse`, `Stuck.close`), or where the function does
that it calls for the rest (`Stuck.prepend`). So there is one lemma for each
function of the parser, up to `stuck_of_parts` for the line.

The exception is the lone minus sign. There the token in the way is taken before
the complaint, and the column is that of the token after it.
-/

namespace Intcode.Assembly

/-! ## Getting stuck -/

/-- The column at which a misfit of the token `t` is reported, when `after` comes after it. -/
def Misfit.columnAt (m : Misfit) (finish : Nat) (t : Placed) (after : List Placed) : Nat :=
  if m = .missingDifference then Line.nextColumn finish after else t.column

/-- Why a function of the parser that reads a language stops with a misfit at a column. Either
there is a token that it cannot take, whatever follows, although the tokens before it start a text
of the language; or all tokens do, and there are too few of them. -/
inductive Stuck {α : Type} (f : Nat → List Placed → Except Problem α)
    (language : List Token → Prop) (finish : Nat) (ts : List Placed) (column : Nat)
    (m : Misfit) : Prop where
  | token (before : List Placed) (t : Placed) (after : List Placed)
      (htokens : ts = before ++ t :: after)
      (hviable : ∃ more, language (before.map Placed.token ++ more))
      (hfails : ∀ finish more, ∃ p, p.Syntactic ∧ f finish (before ++ t :: more) = .error p)
      (hcolumn : column = m.columnAt finish t after)
      (hminus : m = .missingDifference → before.getLast?.map Placed.token = some .minus)
  | finish (hviable : ∃ more, language (ts.map Placed.token ++ more))
      (hcolumn : column = finish)

theorem columnAt_of_ne {m : Misfit} (h : m ≠ .missingDifference) (finish : Nat) (t : Placed)
    (after : List Placed) : m.columnAt finish t after = t.column :=
  if_neg h

section Stuck

variable {α β : Type} {f : Nat → List Placed → Except Problem α}
  {g : Nat → List Placed → Except Problem β} {language language' : List Token → Prop}
  {finish column : Nat} {m : Misfit} {ts rest : List Placed}

/-- A function gets stuck where the function gets stuck that it calls for the last part. It may
look at the first token of that part before it calls. -/
theorem Stuck.prepend (front : List Placed) (h : Stuck g language' finish ts column m)
    (hcalls : ∀ finish us p, us.head? = ts.head? → g finish us = .error p →
      f finish (front ++ us) = .error p)
    (hlanguage : ∀ tokens, language' tokens → language (front.map Placed.token ++ tokens)) :
    Stuck f language finish (front ++ ts) column m := by
  cases h with
  | token before t after htokens hviable hfails hcolumn hminus =>
      obtain ⟨more, hmore⟩ := hviable
      refine .token (front ++ before) t after ?_ ⟨more, ?_⟩ ?_ hcolumn ?_
      · rw [htokens, List.append_assoc]
      · rw [List.map_append, List.append_assoc]
        exact hlanguage _ hmore
      · intro finish' more'
        obtain ⟨p, hp, hg⟩ := hfails finish' more'
        refine ⟨p, hp, ?_⟩
        rw [List.append_assoc]
        refine hcalls finish' _ p ?_ hg
        rw [htokens]
        cases before <;> rfl
      · intro hm
        obtain ⟨u, hu, htoken⟩ := Option.map_eq_some_iff.mp (hminus hm)
        rw [List.getLast?_append, hu, ← htoken]
        rfl
  | finish hviable hcolumn =>
      obtain ⟨more, hmore⟩ := hviable
      refine .finish ⟨more, ?_⟩ hcolumn
      rw [List.map_append, List.append_assoc]
      exact hlanguage _ hmore

/-- When one token is refused with the same complaint whatever follows. -/
theorem Stuck.refuse (before : List Placed) {t : Placed} {after : List Placed} (m' : Misfit)
    (hm : m' ≠ .missingDifference)
    (hfails : ∀ finish more, f finish (before ++ t :: more) = .error (.misfit t.column m'))
    (hviable : ∃ more, language (before.map Placed.token ++ more))
    (h : f finish (before ++ t :: after) = .error (.misfit column m)) :
    Stuck f language finish (before ++ t :: after) column m := by
  rw [hfails] at h
  cases h
  refine .token before t after rfl hviable ?_ (columnAt_of_ne hm finish t after).symm
    (absurd · hm)
  intro finish' more
  exact ⟨.misfit t.column m, trivial, hfails finish' more⟩

/-- When only the closing bracket is missing. -/
theorem Stuck.close {f : Nat → List Placed → Except Problem (Operand × List Placed)}
    (used : List Placed) (o : Operand)
    (hf : ∀ finish rest, f finish (used ++ rest)
      = (Line.expect finish .rightBracket rest).map (o, ·))
    (hlanguage : language (used.map Placed.token ++ [.rightBracket]))
    (h : f finish (used ++ rest) = .error (.misfit column m)) :
    Stuck f language finish (used ++ rest) column m := by
  cases rest with
  | nil =>
      rw [hf] at h
      cases h
      rw [List.append_nil]
      exact .finish ⟨_, hlanguage⟩ rfl
  | cons t after =>
      by_cases ht : t.token = .rightBracket
      · rw [hf, Line.expect, if_pos ht] at h
        cases h
      · refine Stuck.refuse used (.missing (.token .rightBracket) (some t.token)) (by simp) ?_
          ⟨_, hlanguage⟩ h
        intro finish' more
        rw [hf, Line.expect, if_neg ht]
        rfl

end Stuck

/-! ## Operands -/

section Functions

variable {finish column : Nat} {m : Misfit} {ts : List Placed}

/-- What may follow the relative base in an operand. -/
inductive IsOffsetClosed : List Token → Prop where
  | mk {ts : List Token} (h : IsOffset ts) : IsOffsetClosed (ts ++ [.rightBracket])

theorem stuck_of_plus {c : Nat}
    (h : Line.offsetClosed finish (⟨.plus, c⟩ :: ts) = .error (.misfit column m)) :
    Stuck Line.offsetClosed IsOffsetClosed finish (⟨.plus, c⟩ :: ts) column m := by
  have hzero : IsOffsetClosed [.plus, .number 0, .rightBracket] := .mk (.plus (.number 0))
  cases ts with
  | nil =>
      cases h
      exact .finish ⟨[.number 0, .rightBracket], hzero⟩ rfl
  | cons t ts =>
      by_cases ht : IsExpr t.token
      · obtain ⟨e, he⟩ := expr_of_isExpr ht
        refine Stuck.close [⟨.plus, c⟩, t] ⟨.relative, e⟩ ?_ (.mk (.plus ht)) h
        intro finish rest
        simp only [Line.offsetClosed, List.cons_append, List.nil_append, Line.offset, he]
        rfl
      · obtain ⟨m', hm', he⟩ := expr_of_not_isExpr ht
        refine Stuck.refuse [⟨.plus, c⟩] m' hm' ?_ ⟨[.number 0, .rightBracket], hzero⟩ h
        intro finish more
        simp only [Line.offsetClosed, List.singleton_append, Line.offset, he]
        rfl

/-- The lone minus sign is where the token in the way is taken before the complaint. -/
theorem stuck_of_minus {c : Nat}
    (h : Line.offsetClosed finish (⟨.minus, c⟩ :: ts) = .error (.misfit column m)) :
    Stuck Line.offsetClosed IsOffsetClosed finish (⟨.minus, c⟩ :: ts) column m := by
  have hzero : IsOffsetClosed [.minus, .number 0, .rightBracket] :=
    .mk (@IsOffset.minus 0 0 rfl)
  cases ts with
  | nil =>
      cases h
      exact .finish ⟨[.number 0, .rightBracket], hzero⟩ rfl
  | cons t ts =>
      obtain ⟨token, c'⟩ := t
      cases token with
      | number value =>
          cases hneg : value.neg? with
          | some negated =>
              refine Stuck.close [⟨.minus, c⟩, ⟨.number value, c'⟩] ⟨.relative, .number negated⟩ ?_
                (.mk (.minus hneg)) h
              intro finish rest
              simp only [Line.offsetClosed, List.cons_append, List.nil_append, Line.offset, hneg]
              rfl
          | none =>
              refine Stuck.refuse [⟨.minus, c⟩] (.offsetOutOfRange value) (by simp) ?_
                ⟨[.number 0, .rightBracket], hzero⟩ h
              intro finish more
              simp only [Line.offsetClosed, List.singleton_append, Line.offset, hneg]
              rfl
      | identifier name | directive name | comma | colon | leftBracket | rightBracket | plus
      | minus | newline =>
          cases h
          refine .token [⟨.minus, c⟩] _ ts rfl ⟨[.number 0, .rightBracket], hzero⟩ ?_ rfl
            (fun _ => rfl)
          intro finish more
          exact ⟨.misfit (Line.nextColumn finish more) .missingDifference, trivial, rfl⟩

theorem stuck_of_number {value : Word} {c : Nat}
    (h : Line.offsetClosed finish (⟨.number value, c⟩ :: ts) = .error (.misfit column m)) :
    Stuck Line.offsetClosed IsOffsetClosed finish (⟨.number value, c⟩ :: ts) column m := by
  by_cases hneg : value.toInt < 0
  · refine Stuck.close [⟨.number value, c⟩] ⟨.relative, .number value⟩ ?_ (.mk (.negative hneg)) h
    intro finish rest
    simp only [Line.offsetClosed, List.singleton_append, Line.offset, hneg, if_true]
    rfl
  · refine Stuck.refuse [] .missingOffset (by simp) ?_ ⟨[.rightBracket], .mk .zero⟩ h
    intro finish more
    simp only [Line.offsetClosed, List.nil_append, Line.offset, hneg, if_false]
    rfl

theorem stuck_of_offsetClosed (h : Line.offsetClosed finish ts = .error (.misfit column m)) :
    Stuck Line.offsetClosed IsOffsetClosed finish ts column m := by
  cases ts with
  | nil =>
      cases h
      exact .finish ⟨[.rightBracket], .mk .zero⟩ rfl
  | cons t ts =>
      obtain ⟨token, c⟩ := t
      cases token with
      | rightBracket => cases h
      | plus => exact stuck_of_plus h
      | minus => exact stuck_of_minus h
      | number value => exact stuck_of_number h
      | identifier name | directive name | comma | colon | leftBracket | newline =>
          exact Stuck.refuse [] .missingOffset (by simp) (fun finish more => rfl)
            ⟨[.rightBracket], .mk .zero⟩ h

theorem stuck_of_operand (h : Line.operand finish ts = .error (.misfit column m)) :
    Stuck Line.operand IsOperand finish ts column m := by
  have hzero : IsOperand [.leftBracket, .number 0, .rightBracket] := .positional (.number 0)
  cases ts with
  | nil =>
      cases h
      exact .finish ⟨[.number 0], .immediate (.number 0)⟩ rfl
  | cons t ts =>
      by_cases ht : t.token = .leftBracket
      · obtain ⟨_, c⟩ := t
        subst ht
        cases ts with
        | nil =>
            cases h
            exact .finish ⟨[.number 0, .rightBracket], hzero⟩ rfl
        | cons u ts =>
            by_cases hu : u.token = .identifier Line.baseName
            · obtain ⟨_, c'⟩ := u
              subst hu
              rw [operand_relative] at h
              refine Stuck.prepend [⟨.leftBracket, c⟩, ⟨.identifier Line.baseName, c'⟩]
                (stuck_of_offsetClosed h) ?_ ?_
              · intro finish us p _ hus
                exact (operand_relative c c' us).trans hus
              · rintro _ ⟨hoffset⟩
                exact .relative hoffset
            · by_cases hexpr : IsExpr u.token
              · obtain ⟨e, he⟩ := expr_of_isExpr hexpr
                refine Stuck.close [⟨.leftBracket, c⟩, u] ⟨.positional, e⟩ ?_ (.positional hexpr) h
                intro finish rest
                rw [List.cons_append, List.singleton_append, operand_positional hu, he]
                rfl
              · obtain ⟨m', hm', he⟩ := expr_of_not_isExpr hexpr
                refine Stuck.refuse [⟨.leftBracket, c⟩] m' hm' ?_
                  ⟨[.number 0, .rightBracket], hzero⟩ h
                intro finish more
                rw [List.singleton_append, operand_positional hu, he]
                rfl
      · by_cases hexpr : IsExpr t.token
        · obtain ⟨e, he⟩ := expr_of_isExpr hexpr
          rw [operand_immediate ht, he] at h
          cases h
        · obtain ⟨m', hm', he⟩ := expr_of_not_isExpr hexpr
          refine Stuck.refuse [] m' hm' ?_ ⟨[.number 0], .immediate (.number 0)⟩ h
          intro finish more
          rw [List.nil_append, operand_immediate ht, he]
          rfl

/-! ## Lists with commas -/

theorem stuck_of_operands (h : Line.operands finish ts = .error (.misfit column m)) :
    Stuck Line.operands (Commas IsOperand) finish ts column m := by
  -- The recursion goes on after a comma; everything else is the fault of one operand.
  fun_induction Line.operands finish ts with
  | case1 ts p hoperand =>
      cases h
      exact Stuck.prepend [] (stuck_of_operand hoperand)
        (fun finish us p _ hus => operands_of_error hus) (fun tokens => .last)
  | case2 ts o hoperand => cases h
  | case3 ts o t rest hoperand ht ih =>
      obtain ⟨used, rfl, hused⟩ := isOperand_of_operand hoperand
      obtain ⟨o', ho'⟩ := operand_of_isOperand hused
      obtain ⟨_, c⟩ := t
      subst ht
      rw [List.append_cons]
      refine Stuck.prepend (used ++ [⟨.comma, c⟩]) (ih (map_eq_error_iff.mp h)) ?_ ?_
      · intro finish us p _ hus
        rw [← List.append_cons, operands_of_comma finish (ho' finish _), hus]
        rfl
      · intro tokens htokens
        rw [List.map_append, List.append_assoc]
        exact .more hused htokens
  | case4 ts o t rest hoperand ht =>
      obtain ⟨used, rfl, hused⟩ := isOperand_of_operand hoperand
      obtain ⟨o', ho'⟩ := operand_of_isOperand hused
      refine Stuck.refuse used (.missing (.token .comma) (some t.token)) (by simp) ?_ ⟨[], ?_⟩ ?_
      · intro finish more
        exact operands_of_other (ho' finish _) ht
      · rw [List.append_nil]
        exact .last hused
      · exact (operands_of_other hoperand ht).trans h

theorem exprs_of_not_isExpr {t : Placed} (ht : ¬ IsExpr t.token) :
    ∃ m, m ≠ .missingDifference
      ∧ ∀ finish more, Line.exprs finish (t :: more) = .error (.misfit t.column m) := by
  obtain ⟨m, hm, he⟩ := expr_of_not_isExpr ht
  refine ⟨m, hm, fun finish more => ?_⟩
  cases more with
  | nil => rw [Line.exprs, he]; rfl
  | cons u more => rw [Line.exprs, he]; rfl

theorem exprs_of_other {t u : Placed} (ht : IsExpr t.token) (hu : u.token ≠ .comma)
    (finish : Nat) (more : List Placed) :
    Line.exprs finish (t :: u :: more)
      = .error (.misfit u.column (.missing (.token .comma) (some u.token))) := by
  obtain ⟨e, he⟩ := expr_of_isExpr ht
  rw [Line.exprs, he, Line.expect, if_neg hu]
  rfl

theorem stuck_of_exprs (h : Line.exprs finish ts = .error (.misfit column m)) :
    Stuck Line.exprs (Commas IsDatum) finish ts column m := by
  have hzero : Commas IsDatum [.number 0] := .last (.expr (.number 0))
  induction ts using Line.exprs.induct with
  | case1 =>
      cases h
      exact .finish ⟨[.number 0], hzero⟩ rfl
  | case2 t =>
      have ht : ¬ IsExpr t.token := by
        intro ht
        obtain ⟨e, he⟩ := expr_of_isExpr ht
        rw [Line.exprs, he] at h
        cases h
      obtain ⟨m', hm', hfails⟩ := exprs_of_not_isExpr ht
      exact Stuck.refuse [] m' hm' hfails ⟨[.number 0], hzero⟩ h
  | case3 t u rest ih =>
      by_cases ht : IsExpr t.token
      · by_cases hu : u.token = .comma
        · obtain ⟨e, he⟩ := exprs_cons_cons ht hu finish rest
          rw [he, map_eq_error_iff] at h
          refine Stuck.prepend [t, u] (ih h) ?_ ?_
          · intro finish us p _ hus
            obtain ⟨e, he⟩ := exprs_cons_cons ht hu finish us
            exact he.trans (map_eq_error_iff.mpr hus)
          · intro tokens htokens
            have hdata := Commas.more (.expr ht) htokens
            rw [← hu] at hdata
            exact hdata
        · exact Stuck.refuse [t] (.missing (.token .comma) (some u.token)) (by simp)
            (exprs_of_other ht hu) ⟨[], .last (.expr ht)⟩ h
      · obtain ⟨m', hm', hfails⟩ := exprs_of_not_isExpr ht
        exact Stuck.refuse [] m' hm' hfails ⟨[.number 0], hzero⟩ h

/-! ## Lines -/

/-- The name of the relative base starts no line, with a colon or without. -/
theorem parts_base (finish c : Nat) (more : List Placed) :
    ∃ p, p.Syntactic
      ∧ Line.parts finish (⟨.identifier Line.baseName, c⟩ :: more) = .error p := by
  by_cases h : ∃ c' rest, more = ⟨.colon, c'⟩ :: rest
  · obtain ⟨c', rest, rfl⟩ := h
    refine ⟨.misfit c .reservedLabel, trivial, ?_⟩
    rw [Line.parts, Line.labels, if_pos rfl]
    rfl
  · have hlabel : NoLabel (⟨.identifier Line.baseName, c⟩ :: more) := by
      rintro name c' c'' rest heq
      exact h ⟨c'', rest, (List.cons.inj heq).2⟩
    refine ⟨.unknownInstruction Line.baseName, trivial, ?_⟩
    rw [parts_of_noLabel hlabel]
    rfl

/-- An instruction is refused for what is wrong with its operands. -/
theorem parts_of_operands {mnemonic : String} {opcode : Opcode} {c : Nat} {us : List Placed}
    {p : Problem} (hopcode : Opcode.ofMnemonic? mnemonic = some opcode)
    (hlabel : NoLabel (⟨.identifier mnemonic, c⟩ :: us)) (hne : us ≠ [])
    (h : Line.operands finish us = .error p) :
    Line.parts finish (⟨.identifier mnemonic, c⟩ :: us) = .error p := by
  have hempty : ¬ us.isEmpty = true := by simpa using hne
  rw [parts_of_noLabel hlabel, Line.body, instruction_eq finish hopcode, if_neg hempty, h]
  rfl

theorem stuck_of_instruction {mnemonic : String} {c : Nat}
    (hlabel : NoLabel (⟨.identifier mnemonic, c⟩ :: ts))
    (h : Line.parts finish (⟨.identifier mnemonic, c⟩ :: ts) = .error (.misfit column m)) :
    Stuck Line.parts IsLine finish (⟨.identifier mnemonic, c⟩ :: ts) column m := by
  rw [parts_of_noLabel hlabel, map_eq_error_iff, Line.body, map_eq_error_iff] at h
  cases hopcode : Opcode.ofMnemonic? mnemonic with
  | none =>
      rw [Line.instruction, hopcode] at h
      cases h
  | some opcode =>
      rw [instruction_eq finish hopcode, bind_eq_error_iff] at h
      obtain hoperands | ⟨os, -, hchecks⟩ := h
      · cases ts with
        | nil => cases hoperands
        | cons t ts =>
            refine Stuck.prepend [⟨.identifier mnemonic, c⟩] (stuck_of_operands hoperands) ?_ ?_
            · -- What is in place of the operands starts in the same way, so it is no colon.
              rintro finish us p hhead hus
              obtain ⟨us, rfl⟩ := List.head?_eq_some_iff.mp hhead
              refine parts_of_operands hopcode ?_ (List.cons_ne_nil _ _) hus
              rintro name c' c'' rest ⟨⟩
              exact hlabel _ _ _ _ rfl
            · intro tokens htokens
              exact .body (.instruction hopcode htokens)
      · split at hchecks
        · cases hchecks
        · split at hchecks <;> cases hchecks

theorem stuck_of_words {name : String} {c : Nat}
    (h : Line.parts finish (⟨.directive name, c⟩ :: ts) = .error (.misfit column m)) :
    Stuck Line.parts IsLine finish (⟨.directive name, c⟩ :: ts) column m := by
  have hlabel (us : List Placed) : NoLabel (⟨.directive name, c⟩ :: us) := nofun
  rw [parts_of_noLabel (hlabel ts), map_eq_error_iff, Line.body] at h
  split at h
  next hname =>
    subst hname
    refine Stuck.prepend [⟨.directive Line.wordDirective, c⟩]
      (stuck_of_exprs (map_eq_error_iff.mp h)) ?_ (fun tokens htokens => .body (.words htokens))
    intro finish us p _ hus
    rw [List.singleton_append, parts_of_noLabel (hlabel us), Line.body, if_pos rfl, hus]
    rfl
  next => cases h

/-- The parser stops where the line goes wrong. -/
theorem stuck_of_parts (h : Line.parts finish ts = .error (.misfit column m)) :
    Stuck Line.parts IsLine finish ts column m := by
  induction ts using Line.labels.induct with
  | case1 c c' rest =>
      rw [Line.parts, Line.labels, if_pos rfl] at h
      cases h
      refine .token [] _ _ rfl ⟨[], .body .nothing⟩ ?_ rfl (by simp)
      intro finish more
      exact parts_base finish _ more
  | case2 name c c' rest hname ih =>
      rw [parts_label hname, map_eq_error_iff] at h
      refine Stuck.prepend [⟨.identifier name, c⟩, ⟨.colon, c'⟩] (ih h) ?_
        (fun tokens => .label hname)
      intro finish us p _ hus
      exact (parts_label hname c c' us).trans (map_eq_error_iff.mpr hus)
  | case3 ts hlabel =>
      cases ts with
      | nil => cases h
      | cons t ts =>
          obtain ⟨token, c⟩ := t
          cases token with
          | identifier mnemonic => exact stuck_of_instruction hlabel h
          | directive name => exact stuck_of_words h
          | number value | comma | colon | leftBracket | rightBracket | plus | minus | newline =>
              exact Stuck.refuse [] (.missing .statement (some _)) (by simp)
                (fun finish more => rfl) ⟨[], .body .nothing⟩ h

end Functions

/-! ## The token that goes wrong -/

/-- Tokens that can be continued to a line. -/
def Viable (tokens : List Token) : Prop :=
  ∃ more, IsLine (tokens ++ more)

theorem Viable.of_append {tokens more : List Token} (h : Viable (tokens ++ more)) :
    Viable tokens := by
  obtain ⟨more', hline⟩ := h
  rw [List.append_assoc] at hline
  exact ⟨more ++ more', hline⟩

/-- The first token of a line that cannot follow the tokens before it. -/
structure Offends (ts before : List Placed) (t : Placed) (after : List Placed) : Prop where
  split : ts = before ++ t :: after
  viable : Viable (before.map Placed.token)
  stuck : ¬ Viable ((before ++ [t]).map Placed.token)

theorem Offends.not_viable {ts before after : List Placed} {t : Placed}
    (h : Offends ts before t after) : ¬ Viable (ts.map Placed.token) := by
  intro hviable
  rw [h.split, List.append_cons, List.map_append] at hviable
  exact h.stuck hviable.of_append

theorem Offends.eq_of_append {ts before extra after after' : List Placed} {t t' : Placed}
    (h : Offends ts before t after) (h' : Offends ts (before ++ extra) t' after')
    (htail : t :: after = extra ++ t' :: after') : t = t' := by
  cases extra with
  | nil => exact (List.cons.inj htail).1
  | cons u extra =>
      -- The first of the two tokens would be part of what can be continued.
      obtain ⟨rfl, -⟩ := List.cons.inj htail
      have hviable := h'.viable
      rw [List.append_cons, List.map_append] at hviable
      exact absurd hviable.of_append h.stuck

/-- At most one token of a line is the first to go wrong. -/
theorem Offends.unique {ts before before' after after' : List Placed} {t t' : Placed}
    (h : Offends ts before t after) (h' : Offends ts before' t' after') : t = t' := by
  rcases List.append_eq_append_iff.mp (h.split.symm.trans h'.split) with
    ⟨extra, rfl, htail⟩ | ⟨extra, rfl, htail⟩
  · exact h.eq_of_append h' htail
  · exact (h'.eq_of_append h htail).symm

/-- What the parser refuses whatever follows cannot be continued to a line. -/
theorem offends_of_refused {ts before after : List Placed} {t : Placed}
    (hsplit : ts = before ++ t :: after) (hviable : Viable (before.map Placed.token))
    (hfails : ∀ finish more, ∃ p, p.Syntactic
      ∧ Line.parts finish (before ++ t :: more) = .error p) :
    Offends ts before t after := by
  refine ⟨hsplit, hviable, ?_⟩
  rintro ⟨more, hline⟩
  -- The tokens that are thought to follow stand nowhere, so any column will do.
  obtain ⟨p, hp, hparts⟩ := hfails 0 (more.map (⟨·, 0⟩))
  refine not_syntactic_of_isLine ?_ hparts hp
  simpa [Function.comp_def] using hline

/-- The column is that of the first token to go wrong, or one past the start of the last token if
there is no such token. -/
structure PointsAt (ts : List Placed) (column : Nat) : Prop where
  offending : ∀ before t after, Offends ts before t after → column = t.column
  ended : (¬ ∃ before t after, Offends ts before t after) →
    ∃ last, ts.getLast? = some last ∧ column = last.column + 1

theorem Offends.pointsAt_iff {ts before after : List Placed} {t : Placed} {column : Nat}
    (h : Offends ts before t after) : PointsAt ts column ↔ column = t.column := by
  constructor
  · intro hpoints
    exact hpoints.offending before t after h
  · intro hcolumn
    refine ⟨?_, fun hnone => absurd ⟨before, t, after, h⟩ hnone⟩
    intro before' t' after' h'
    rw [hcolumn, h.unique h']

theorem endColumn_eq {ts : List Placed} (h : ts ≠ []) :
    ∃ last, ts.getLast? = some last ∧ Line.endColumn ts = last.column + 1 := by
  have hlast := List.getLast?_eq_some_getLast h
  refine ⟨ts.getLast h, hlast, ?_⟩
  rw [Line.endColumn, hlast]

theorem pointsAt_of_viable {ts : List Placed} (hne : ts ≠ [])
    (h : Viable (ts.map Placed.token)) : PointsAt ts (Line.endColumn ts) := by
  refine ⟨?_, fun _ => endColumn_eq hne⟩
  intro before t after hoffends
  exact absurd h hoffends.not_viable

/-! ## Columns -/

theorem utf8Length_piece_pos (c : Char) (rest : List Char) : 0 < utf8Length (piece c rest) := by
  rw [piece, utf8Length, List.foldr_cons]
  exact Nat.add_pos_left c.utf8Size_pos _

theorem le_start_of_mem_lexemes {start : Nat} {text : List Char} {l : Lexeme}
    (h : l ∈ lexemes start text) : start ≤ l.start := by
  fun_induction lexemes start text with
  | case1 => cases h
  | case2 start c rest text others hreading ih =>
      exact Nat.le_trans (Nat.le_add_right _ _) (ih h)
  | case3 start c rest text others t hreading ih | case4 start c rest text others hreading ih =>
      rcases List.mem_cons.mp h with rfl | h
      · exact Nat.le_refl _
      · exact Nat.le_trans (Nat.le_add_right _ _) (ih h)

theorem pairwise_lexemes (start : Nat) (text : List Char) :
    (lexemes start text).Pairwise (·.start < ·.start) := by
  fun_induction lexemes start text with
  | case1 => exact .nil
  | case2 start c rest text others hreading ih => exact ih
  | case3 start c rest text others t hreading ih | case4 start c rest text others hreading ih =>
      refine .cons ?_ ih
      intro l hl
      have hle := le_start_of_mem_lexemes hl
      have hpos := utf8Length_piece_pos c rest
      exact Nat.lt_of_lt_of_le (Nat.lt_add_of_pos_right hpos) hle

theorem map_column_of_tokens {ls : List Lexeme} {ts : List Placed}
    (h : Line.tokens ls = .ok ts) : ts.map Placed.column = ls.map (·.start + 1) := by
  induction ls generalizing ts with
  | nil =>
      cases h
      rfl
  | cons l ls ih =>
      rw [Line.tokens] at h
      split at h
      next => cases h
      next =>
        obtain ⟨us, hus, rfl⟩ := map_eq_ok_iff.mp h
        rw [List.map_cons, List.map_cons, ih hus]

/-- The columns of the tokens of a line go up. -/
theorem pairwise_column {text : List Char} {ts : List Placed}
    (h : Line.tokens (lexemes 0 text) = .ok ts) : ts.Pairwise (·.column < ·.column) := by
  rw [← List.pairwise_map (f := Placed.column), map_column_of_tokens h, List.pairwise_map]
  exact (pairwise_lexemes 0 text).imp Nat.succ_lt_succ

theorem lt_nextColumn {before after : List Placed} {t : Placed}
    (h : (before ++ t :: after).Pairwise (·.column < ·.column)) :
    t.column < Line.nextColumn (Line.endColumn (before ++ t :: after)) after := by
  cases after with
  | nil =>
      rw [Line.nextColumn, Line.endColumn, List.getLast?_concat]
      exact Nat.lt_succ_self _
  | cons u after =>
      obtain ⟨-, hafter, -⟩ := List.pairwise_append.mp h
      exact (List.pairwise_cons.mp hafter).1 u List.mem_cons_self

/-! ## Reported columns -/

theorem content_of_parse {source : String} {number : Nat} {problem : Problem} {text : List Char}
    {ts : List Placed} (h : parse source = .error (.onLine number problem))
    (htext : (linesOf source)[number - 1]? = some text)
    (htokens : Line.tokens (lexemes 0 text) = .ok ts) : Line.content ts = .error problem := by
  obtain ⟨before, text', after, problem', hlines, -, hblamed, herror⟩ :=
    readLines_eq_error_iff.mp h
  cases herror
  obtain rfl : text' = text := by
    simpa [linesOf, hlines, Nat.add_sub_cancel_left] using htext
  have hread := read_eq_error_iff.mpr hblamed
  rw [Line.read, htokens] at hread
  exact hread

theorem stuck_of_content {column : Nat} {m : Misfit} {ts : List Placed}
    (h : Line.content ts = .error (.misfit column m)) :
    Stuck Line.parts IsLine (Line.endColumn ts) ts column m :=
  stuck_of_parts (content_eq_error_iff.mp h)

/-- **Where the syntax is wrong.** The column of a complaint about the tokens of a line is that of
the first token that cannot follow the tokens before it, and one past the last token if the line
ends too early. The only exception is the complaint about a lone minus sign in front of something
other than a number, where the column is that of the token after the one that goes wrong. -/
theorem parse_misfit_column {source : String} {number column : Nat} {m : Misfit}
    {text : List Char} {ts : List Placed}
    (h : parse source = .error (.onLine number (.misfit column m)))
    (htext : (linesOf source)[number - 1]? = some text)
    (htokens : Line.tokens (lexemes 0 text) = .ok ts) :
    (PointsAt ts column ↔ (m = .missingDifference → Viable (ts.map Placed.token)))
      ∧ (¬ PointsAt ts column → ∃ before t after, Offends ts before t after
          ∧ before.getLast?.map Placed.token = some .minus
          ∧ t.column < column ∧ column = Line.nextColumn (Line.endColumn ts) after) := by
  have hcontent := content_of_parse h htext htokens
  cases stuck_of_content hcontent with
  | token before t after hsplit hviable hfails hcolumn hminus =>
      have hoffends := offends_of_refused hsplit hviable hfails
      rw [hoffends.pointsAt_iff]
      by_cases hm : m = .missingDifference
      · -- The column of the next token is another one, as columns go up.
        rw [Misfit.columnAt, if_pos hm] at hcolumn
        have hlt : t.column < column := by
          rw [hcolumn, hsplit]
          exact lt_nextColumn (hsplit ▸ pairwise_column htokens)
        constructor
        · constructor
          · intro heq
            exact absurd heq (Nat.ne_of_gt hlt)
          · intro hall
            exact absurd (hall hm) hoffends.not_viable
        · intro _
          exact ⟨before, t, after, hoffends, hminus hm, hlt, hcolumn⟩
      · rw [columnAt_of_ne hm] at hcolumn
        exact ⟨⟨fun _ heq => absurd heq hm, fun _ => hcolumn⟩, absurd hcolumn⟩
  | finish hviable hcolumn =>
      have hne : ts ≠ [] := by
        rintro rfl
        cases hcontent
      have hpoints := pointsAt_of_viable hne hviable
      rw [← hcolumn] at hpoints
      exact ⟨⟨fun _ _ => hviable, fun _ => hpoints⟩, absurd hpoints⟩

theorem parse_misfit_column_missingComma :
    parse "halt\nloop: jnz 1 loop"
        = .error (.onLine 2 (.misfit 13 (.missing (.token .comma) (some (.identifier "loop")))))
      ∧ PointsAt [⟨.identifier "loop", 1⟩, ⟨.colon, 5⟩, ⟨.identifier "jnz", 7⟩, ⟨.number 1, 11⟩,
          ⟨.identifier "loop", 13⟩] 13 := by
  have h : parse "halt\nloop: jnz 1 loop" = .error (.onLine 2
      (.misfit 13 (.missing (.token .comma) (some (.identifier "loop"))))) := by decide +kernel
  have htext : (linesOf "halt\nloop: jnz 1 loop")[2 - 1]? = some "loop: jnz 1 loop".toList := by
    decide +kernel
  have htokens : Line.tokens (lexemes 0 "loop: jnz 1 loop".toList)
      = .ok [⟨.identifier "loop", 1⟩, ⟨.colon, 5⟩, ⟨.identifier "jnz", 7⟩, ⟨.number 1, 11⟩,
          ⟨.identifier "loop", 13⟩] := by decide +kernel
  exact ⟨h, (parse_misfit_column h htext htokens).1.mpr (by simp)⟩

/-- After a lone minus sign the complaint is about the token after the one that goes wrong. -/
theorem misfit_column_past_offending :
    ¬ ∀ (source : String) (number column : Nat) (m : Misfit) (text : List Char)
        (ts : List Placed), parse source = .error (.onLine number (.misfit column m)) →
        (linesOf source)[number - 1]? = some text →
        Line.tokens (lexemes 0 text) = .ok ts → PointsAt ts column := by
  intro hall
  let before : List Placed := [⟨.identifier "out", 1⟩, ⟨.leftBracket, 5⟩,
    ⟨.identifier Line.baseName, 6⟩, ⟨.minus, 9⟩]
  have hopcode : Opcode.ofMnemonic? "out" = some .output := by decide
  have hviable : Viable (before.map Placed.token) :=
    ⟨[.number 0, .rightBracket],
      .body (.instruction hopcode (.last (.relative (@IsOffset.minus 0 0 rfl))))⟩
  have hfails (finish : Nat) (more : List Placed) :
      Line.parts finish (before ++ ⟨.identifier "x", 11⟩ :: more)
        = .error (.misfit (Line.nextColumn finish more) .missingDifference) := by
    have hlabel : NoLabel (before ++ ⟨.identifier "x", 11⟩ :: more) := by
      rintro name c c' rest ⟨⟩
    exact parts_of_operands hopcode hlabel nofun (operands_of_error (operand_relative 5 6 _))
  have hoffends : Offends (before ++ [⟨.identifier "x", 11⟩, ⟨.rightBracket, 12⟩]) before
      ⟨.identifier "x", 11⟩ [⟨.rightBracket, 12⟩] := by
    refine offends_of_refused rfl hviable ?_
    intro finish more
    exact ⟨.misfit (Line.nextColumn finish more) .missingDifference, trivial, hfails finish more⟩
  have hparse : parse "out [rb - x]" = .error (.onLine 1 (.misfit 12 .missingDifference)) := by
    decide +kernel
  have htokens : Line.tokens (lexemes 0 "out [rb - x]".toList)
      = .ok [⟨.identifier "out", 1⟩, ⟨.leftBracket, 5⟩, ⟨.identifier Line.baseName, 6⟩, ⟨.minus, 9⟩,
          ⟨.identifier "x", 11⟩, ⟨.rightBracket, 12⟩] := by decide +kernel
  have hpoints := hall _ 1 12 .missingDifference _ _ hparse (by decide +kernel) htokens
  exact absurd (hoffends.pointsAt_iff.mp hpoints) (by decide)

end Intcode.Assembly
