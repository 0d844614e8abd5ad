import Intcode.Assembly.Source
import Intcode.Proofs.Lexing

/-!
# The grammar of a line

The tokens that a line is written with, and what the parser makes of them.
`Content.tokens` writes the content of a line as tokens, in the spelling that
listings use: an offset of the relative base that is zero is left out, and a
negative one is a single number. The parser takes back whatever was written,
provided the content is one that a line can have (`content_of_tokens`).

The parser sees placed tokens, and a well-formed line leads to no message, so
the columns do not matter: each lemma is about placed tokens of which only the
tokens are known. It also says what the parser leaves, since every part of a
line is followed by the next.
-/

namespace Intcode.Assembly

/-! ## Writing tokens -/

def Expr.token : Expr → Token
  | number value => .number value
  | label name => .identifier name

/-- The tokens between the relative base and the closing bracket. -/
def Expr.offsetTokens : Expr → List Token
  | number value =>
    if value.toInt = 0 then []
    else if value.toInt < 0 then [.number value]
    else [.plus, .number value]
  | label name => [.plus, .identifier name]

def Operand.tokens (o : Operand) : List Token :=
  match o.mode with
  | .immediate => [o.expr.token]
  | .positional => [.leftBracket, o.expr.token, .rightBracket]
  | .relative =>
    .leftBracket :: .identifier Line.baseName :: (o.expr.offsetTokens ++ [.rightBracket])

/-- Pieces of a line with commas between them. -/
def separated (pieces : List (List Token)) : List Token :=
  [Token.comma].intercalate pieces

def Body.tokens : Body → List Token
  | instruction opcode operands =>
    .identifier opcode.mnemonic :: separated (operands.map Operand.tokens)
  | words values => .directive Line.wordDirective :: separated (values.map fun e => [e.token])

def Content.tokens (c : Content) : List Token :=
  c.labels.flatMap (fun name => [.identifier name, .colon])
    ++ (c.body.map Body.tokens).getD []

/-! ## Well-formed content -/

/-- The name of a label: any name but that of the relative base. -/
def IsLabel (name : String) : Prop :=
  isName name.toList = true ∧ name ≠ Line.baseName

def Expr.WellFormed : Expr → Prop
  | number _ => True
  | label name => IsLabel name

/-- An instruction has one operand for each parameter. -/
def Body.Saturated : Body → Prop
  | instruction opcode operands => operands.length = opcode.parameterCount
  | words _ => True

/-- The operand that names the cell to write is not immediate. -/
def Body.DestinationOK : Body → Prop
  | instruction opcode operands =>
    ∀ place o, opcode.destination? = some place → operands[place]? = some o →
      o.mode ≠ .immediate
  | words _ => True

structure Body.WellFormed (b : Body) : Prop where
  saturated : b.Saturated
  destination : b.DestinationOK
  exprs : ∀ e ∈ b.exprs, e.WellFormed
  nonempty : b.width ≠ 0

structure Content.WellFormed (c : Content) : Prop where
  labels : ∀ name ∈ c.labels, IsLabel name
  body : ∀ b ∈ c.body, b.WellFormed
  nonempty : c.labels = [] → c.body ≠ none

/-! ## Results -/

theorem bind_eq_ok_iff {ε α β : Type} {x : Except ε α} {f : α → Except ε β} {b : β} :
    (x >>= f) = .ok b ↔ ∃ a, x = .ok a ∧ f a = .ok b := by
  cases x with
  | error e => exact ⟨nofun, nofun⟩
  | ok a =>
      constructor
      · intro h
        exact ⟨a, rfl, h⟩
      · rintro ⟨_, ⟨⟩, h⟩
        exact h

theorem map_eq_ok_iff {ε α β : Type} {x : Except ε α} {f : α → β} {b : β} :
    x.map f = .ok b ↔ ∃ a, x = .ok a ∧ f a = b := by
  cases x with
  | error e => exact ⟨nofun, nofun⟩
  | ok a =>
      constructor
      · rintro ⟨⟩
        exact ⟨a, rfl, rfl⟩
      · rintro ⟨_, ⟨⟩, rfl⟩
        rfl

theorem map_eq_error_iff {ε α β : Type} {x : Except ε α} {f : α → β} {e : ε} :
    x.map f = .error e ↔ x = .error e := by
  cases x with
  | error e' => simp only [Except.map, Except.error.injEq]
  | ok a => exact ⟨nofun, nofun⟩

theorem bind_eq_error_iff {ε α β : Type} {x : Except ε α} {f : α → Except ε β} {e : ε} :
    (x >>= f) = .error e ↔ x = .error e ∨ ∃ a, x = .ok a ∧ f a = .error e := by
  cases x with
  | error e' => simp [bind, Except.bind]
  | ok a => simp [bind, Except.bind]

/-! ## Placed tokens -/

variable (finish : Nat)

theorem exists_of_map_cons {ts : List Placed} {t : Token} {tokens : List Token}
    (h : ts.map Placed.token = t :: tokens) :
    ∃ column rest, ts = ⟨t, column⟩ :: rest ∧ rest.map Placed.token = tokens := by
  obtain ⟨⟨_, column⟩, rest, rfl, rfl, hrest⟩ := List.map_eq_cons_iff.mp h
  exact ⟨column, rest, rfl, hrest⟩

theorem exists_of_map_singleton {ts : List Placed} {t : Token}
    (h : ts.map Placed.token = [t]) : ∃ column, ts = [⟨t, column⟩] := by
  obtain ⟨column, rest, rfl, hrest⟩ := exists_of_map_cons h
  obtain rfl := List.map_eq_nil_iff.mp hrest
  exact ⟨column, rfl⟩

/-! ## Expressions and operands -/

theorem expr_token {e : Expr} (he : e.WellFormed) (column : Nat) (rest : List Placed) :
    Line.expr finish (⟨e.token, column⟩ :: rest) = .ok (e, rest) := by
  cases e with
  | number value => rfl
  | label name => exact if_neg he.2

theorem expect_self (token : Token) (column : Nat) (rest : List Placed) :
    Line.expect finish token (⟨token, column⟩ :: rest) = .ok rest :=
  if_pos rfl

theorem offset_of_tokens {e : Expr} (he : e.WellFormed) {ts : List Placed}
    (hts : ts.map Placed.token = e.offsetTokens) (column : Nat) (rest : List Placed) :
    Line.offset finish (ts ++ ⟨.rightBracket, column⟩ :: rest)
      = .ok (e, ⟨.rightBracket, column⟩ :: rest) := by
  cases e with
  | number value =>
      rw [Expr.offsetTokens] at hts
      split at hts
      next hzero =>
        obtain rfl := List.map_eq_nil_iff.mp hts
        have hvalue : value = 0 := Int64.toInt_inj.mp hzero
        rw [hvalue]
        rfl
      next hzero =>
        split at hts
        next hneg =>
          obtain ⟨c, rfl⟩ := exists_of_map_singleton hts
          exact if_pos hneg
        next hneg =>
          obtain ⟨c, _, rfl, htail⟩ := exists_of_map_cons hts
          obtain ⟨c', rfl⟩ := exists_of_map_singleton htail
          rfl
  | label name =>
      obtain ⟨c, _, rfl, htail⟩ := exists_of_map_cons hts
      obtain ⟨c', rfl⟩ := exists_of_map_singleton htail
      exact expr_token finish he c' _

/-- What stands between brackets without a relative base is an expression. -/
theorem bracketed_token {e : Expr} (he : e.WellFormed) (column : Nat)
    (rest : List Placed) :
    Line.bracketed finish (⟨e.token, column⟩ :: rest) = .ok (⟨.positional, e⟩, rest) := by
  cases e with
  | number value => rfl
  | label name => exact if_neg he.2

theorem bracketed_base {e : Expr} {ts rest : List Placed}
    (h : Line.offset finish ts = .ok (e, rest)) (column : Nat) :
    Line.bracketed finish (⟨.identifier Line.baseName, column⟩ :: ts)
      = .ok (⟨.relative, e⟩, rest) := by
  rw [Line.bracketed, if_pos rfl, h]
  rfl

theorem operand_of_bracketed {o : Operand} {ts rest : List Placed} {column' : Nat}
    (h : Line.bracketed finish ts = .ok (o, ⟨.rightBracket, column'⟩ :: rest))
    (column : Nat) :
    Line.operand finish (⟨.leftBracket, column⟩ :: ts) = .ok (o, rest) := by
  rw [Line.operand, h]
  rfl

theorem operand_of_tokens {o : Operand} (ho : o.expr.WellFormed) {ts : List Placed}
    (hts : ts.map Placed.token = o.tokens) (rest : List Placed) :
    Line.operand finish (ts ++ rest) = .ok (o, rest) := by
  obtain ⟨mode, e⟩ := o
  cases mode with
  | immediate =>
      obtain ⟨c, rfl⟩ := exists_of_map_singleton hts
      rw [List.singleton_append]
      have hexpr := expr_token finish ho c rest
      cases e with
      | number value => rw [Line.operand, hexpr]; rfl; nofun
      | label name => rw [Line.operand, hexpr]; rfl; nofun
  | positional =>
      obtain ⟨c, _, rfl, htail⟩ := exists_of_map_cons hts
      obtain ⟨c', _, rfl, htail'⟩ := exists_of_map_cons htail
      obtain ⟨c'', rfl⟩ := exists_of_map_singleton htail'
      exact operand_of_bracketed finish (bracketed_token finish ho c' _) c
  | relative =>
      obtain ⟨c, _, rfl, htail⟩ := exists_of_map_cons hts
      obtain ⟨c', _, rfl, htail'⟩ := exists_of_map_cons htail
      obtain ⟨us, _, rfl, hus, hlast⟩ := List.map_eq_append_iff.mp htail'
      obtain ⟨c'', rfl⟩ := exists_of_map_singleton hlast
      rw [List.cons_append, List.cons_append, List.append_assoc]
      have hoffset := offset_of_tokens finish ho hus c'' rest
      exact operand_of_bracketed finish (bracketed_base finish hoffset c') c

/-! ## Lists with commas -/

theorem operands_of_last {ts : List Placed} {o : Operand}
    (h : Line.operand finish ts = .ok (o, [])) : Line.operands finish ts = .ok [o] := by
  rw [Line.operands]
  split <;> simp_all

theorem operands_of_comma {ts rest : List Placed} {o : Operand} {column : Nat}
    (h : Line.operand finish ts = .ok (o, ⟨.comma, column⟩ :: rest)) :
    Line.operands finish ts = (Line.operands finish rest).map (o :: ·) := by
  rw [Line.operands]
  split
  next heq => rw [h] at heq; cases heq
  next heq => rw [h] at heq; cases heq
  next heq => rw [h] at heq; cases heq; exact if_pos rfl

theorem separated_cons_cons (p q : List Token) (ps : List (List Token)) :
    separated (p :: q :: ps) = p ++ .comma :: separated (q :: ps) := by
  rw [separated, List.intercalate_cons_cons, List.append_assoc]
  rfl

theorem operands_of_tokens {os : List Operand} (hne : os ≠ [])
    (hos : ∀ o ∈ os, o.expr.WellFormed) {ts : List Placed}
    (hts : ts.map Placed.token = separated (os.map Operand.tokens)) :
    Line.operands finish ts = .ok os := by
  induction os generalizing ts with
  | nil => exact absurd rfl hne
  | cons o os ih =>
      have ho : o.expr.WellFormed := hos o List.mem_cons_self
      cases os with
      | nil =>
          rw [List.map_singleton, separated, List.intercalate_singleton] at hts
          have h := operand_of_tokens finish ho hts []
          rw [List.append_nil] at h
          exact operands_of_last finish h
      | cons o' os =>
          rw [List.map_cons, List.map_cons, separated_cons_cons] at hts
          obtain ⟨us, _, rfl, hus, htail⟩ := List.map_eq_append_iff.mp hts
          obtain ⟨c, vs, rfl, hvs⟩ := exists_of_map_cons htail
          rw [operands_of_comma finish (operand_of_tokens finish ho hus _),
            ih (List.cons_ne_nil _ _) (fun x hx => hos x (List.mem_cons_of_mem _ hx)) hvs]
          rfl

theorem exprs_of_tokens {es : List Expr} (hne : es ≠ []) (hes : ∀ e ∈ es, e.WellFormed)
    {ts : List Placed} (hts : ts.map Placed.token = separated (es.map fun e => [e.token])) :
    Line.exprs finish ts = .ok es := by
  induction es generalizing ts with
  | nil => exact absurd rfl hne
  | cons e es ih =>
      have he : e.WellFormed := hes e List.mem_cons_self
      cases es with
      | nil =>
          rw [List.map_singleton, separated, List.intercalate_singleton] at hts
          obtain ⟨c, rfl⟩ := exists_of_map_singleton hts
          rw [Line.exprs, expr_token finish he]
          rfl
      | cons e' es =>
          rw [List.map_cons, List.map_cons, separated_cons_cons] at hts
          obtain ⟨c, _, rfl, htail⟩ := exists_of_map_cons hts
          obtain ⟨c', vs, rfl, hvs⟩ := exists_of_map_cons htail
          rw [Line.exprs, expr_token finish he, expect_self,
            ih (List.cons_ne_nil _ _) (fun x hx => hes x (List.mem_cons_of_mem _ hx)) hvs]
          rfl

/-! ## Statements -/

theorem ofMnemonic?_mnemonic (op : Opcode) : Opcode.ofMnemonic? op.mnemonic = some op := by
  cases op <;> decide

theorem isName_mnemonic (op : Opcode) : isName op.mnemonic.toList = true := by
  cases op <;> decide

/-- Without tokens there is no list of operands. -/
theorem operands_nil (os : List Operand) : Line.operands finish [] ≠ .ok os := by
  rw [Line.operands]
  nofun

theorem destinationOK_iff {opcode : Opcode} {os : List Operand} :
    (Body.instruction opcode os).DestinationOK ↔
      (opcode.destination?.bind (os[·]?)).any (·.mode = .immediate) = false := by
  constructor
  · intro h
    cases hplace : opcode.destination? with
    | none => rfl
    | some place =>
        cases ho : os[place]? with
        | none => simp only [Option.bind_some, ho, Option.any_none]
        | some o =>
            simp only [Option.bind_some, ho, Option.any_some, decide_eq_false_iff_not]
            exact h place o hplace ho
  · intro h place o hplace ho
    simpa [hplace, ho] using h

/-- The operands are read first, and then their number and the destination are checked. -/
theorem instruction_eq {mnemonic : String} {opcode : Opcode} {ts : List Placed}
    (h : Opcode.ofMnemonic? mnemonic = some opcode) :
    Line.instruction finish mnemonic ts =
      (if ts.isEmpty then Except.ok [] else Line.operands finish ts) >>= fun os =>
        if os.length ≠ opcode.parameterCount then
          .error (.operandCount mnemonic opcode.parameterCount os.length)
        else if (opcode.destination?.bind (os[·]?)).any (·.mode = .immediate) then
          .error (.immediateDestination mnemonic)
        else .ok (.instruction opcode os) := by
  rw [Line.instruction, h]
  cases ts.isEmpty with
  | true => rfl
  | false => rfl

theorem instruction_eq_ok_iff {mnemonic : String} {ts : List Placed} {b : Body} :
    Line.instruction finish mnemonic ts = .ok b ↔
      ∃ opcode os, Opcode.ofMnemonic? mnemonic = some opcode
        ∧ (if ts.isEmpty then .ok [] else Line.operands finish ts) = .ok os
        ∧ os.length = opcode.parameterCount
        ∧ (Body.instruction opcode os).DestinationOK
        ∧ b = .instruction opcode os := by
  cases hopcode : Opcode.ofMnemonic? mnemonic with
  | none => simp [Line.instruction, hopcode]
  | some opcode =>
      rw [instruction_eq finish hopcode, bind_eq_ok_iff]
      constructor
      · rintro ⟨os, hos, h⟩
        split at h
        next => cases h
        next hlength =>
          split at h
          next => cases h
          next hdestination =>
            cases h
            exact ⟨opcode, os, rfl, hos, Classical.not_not.mp hlength,
              destinationOK_iff.mpr (eq_false_of_ne_true hdestination), rfl⟩
      · rintro ⟨_, os, ⟨⟩, hos, hlength, hdestination, rfl⟩
        refine ⟨os, hos, ?_⟩
        rw [if_neg (not_not_intro hlength), destinationOK_iff.mp hdestination]
        rfl

/-- Operands that can be read leave only the checks of an instruction. -/
theorem instruction_eq_of_tokens (opcode : Opcode) {os : List Operand}
    (hos : ∀ o ∈ os, o.expr.WellFormed) {ts : List Placed}
    (hts : ts.map Placed.token = separated (os.map Operand.tokens)) :
    Line.instruction finish opcode.mnemonic ts =
      if os.length ≠ opcode.parameterCount then
        .error (.operandCount opcode.mnemonic opcode.parameterCount os.length)
      else if (opcode.destination?.bind (os[·]?)).any (·.mode = .immediate) then
        .error (.immediateDestination opcode.mnemonic)
      else .ok (.instruction opcode os) := by
  have hoperands : (if ts.isEmpty then Except.ok [] else Line.operands finish ts)
      = .ok os := by
    cases os with
    | nil =>
        obtain rfl := List.map_eq_nil_iff.mp hts
        rfl
    | cons o os =>
        have hok := operands_of_tokens finish (List.cons_ne_nil o os) hos hts
        cases ts with
        | nil => exact absurd hok (operands_nil finish _)
        | cons t ts => exact hok
  rw [instruction_eq finish (ofMnemonic?_mnemonic opcode), hoperands]
  rfl

theorem instruction_of_tokens {opcode : Opcode} {os : List Operand}
    (h : (Body.instruction opcode os).WellFormed) {ts : List Placed}
    (hts : ts.map Placed.token = separated (os.map Operand.tokens)) :
    Line.instruction finish opcode.mnemonic ts = .ok (.instruction opcode os) := by
  have hos : ∀ o ∈ os, o.expr.WellFormed := fun o ho =>
    h.exprs o.expr (List.mem_map_of_mem ho)
  have hlength : os.length = opcode.parameterCount := h.saturated
  rw [instruction_eq_of_tokens finish opcode hos hts, if_neg (not_not_intro hlength),
    destinationOK_iff.mp h.destination]
  rfl

theorem body_of_tokens {b : Body} (h : b.WellFormed) {ts : List Placed}
    (hts : ts.map Placed.token = b.tokens) : Line.body finish ts = .ok (some b) := by
  cases b with
  | instruction opcode operands =>
      obtain ⟨c, _, rfl, htail⟩ := exists_of_map_cons hts
      rw [Line.body, instruction_of_tokens finish h htail]
      rfl
  | words values =>
      obtain ⟨c, _, rfl, htail⟩ := exists_of_map_cons hts
      have hne : values ≠ [] := fun hnil => h.nonempty (congrArg List.length hnil)
      rw [Line.body, if_pos rfl, exprs_of_tokens finish hne h.exprs htail]
      rfl

/-! ## Labels and lines -/

/-- The tokens start with no label. -/
def NoLabel (ts : List Placed) : Prop :=
  ∀ name c c' rest, ts ≠ ⟨.identifier name, c⟩ :: ⟨.colon, c'⟩ :: rest

theorem labels_of_noLabel {ts : List Placed} (h : NoLabel ts) :
    Line.labels ts = .ok ([], ts) := by
  unfold Line.labels
  split
  next name c c' rest => exact absurd rfl (h name c c' rest)
  next => rfl

theorem labels_of_tokens {names : List String} (hnames : ∀ name ∈ names, IsLabel name)
    {ts rest : List Placed}
    (hts : ts.map Placed.token = names.flatMap fun name => [.identifier name, .colon])
    (hrest : NoLabel rest) : Line.labels (ts ++ rest) = .ok (names, rest) := by
  induction names generalizing ts with
  | nil =>
      obtain rfl := List.map_eq_nil_iff.mp hts
      exact labels_of_noLabel hrest
  | cons name names ih =>
      obtain ⟨c, _, rfl, htail⟩ := exists_of_map_cons hts
      obtain ⟨c', us, rfl, hus⟩ := exists_of_map_cons htail
      have hname : name ≠ Line.baseName := (hnames name List.mem_cons_self).2
      rw [List.cons_append, List.cons_append, Line.labels, if_neg hname,
        ih (fun x hx => hnames x (List.mem_cons_of_mem _ hx)) hus]
      rfl

/-- No operand starts with a colon. -/
theorem Operand.tokens_ne_colon (o : Operand) (tail : List Token) :
    o.tokens ≠ .colon :: tail := by
  obtain ⟨mode, e⟩ := o
  cases mode with
  | immediate => cases e <;> nofun
  | positional => nofun
  | relative => nofun

theorem separated_ne_colon (os : List Operand) (tail : List Token) :
    separated (os.map Operand.tokens) ≠ .colon :: tail := by
  intro h
  match os with
  | [] => cases h
  | [o] =>
      rw [List.map_singleton, separated, List.intercalate_singleton] at h
      exact o.tokens_ne_colon tail h
  | o :: o' :: os =>
      rw [List.map_cons, List.map_cons, separated_cons_cons] at h
      rcases List.append_eq_cons_iff.mp h with ⟨-, hcomma⟩ | ⟨us, hus, -⟩
      · cases hcomma
      · exact o.tokens_ne_colon us hus

theorem noLabel_of_body {b : Body} {ts : List Placed}
    (hts : ts.map Placed.token = b.tokens) : NoLabel ts := by
  rintro name c c' rest rfl
  cases b with
  | words values => cases hts
  | instruction opcode operands =>
      exact separated_ne_colon operands _ (List.cons.inj hts).2.symm

/-- A line with content has a token. -/
theorem Content.tokens_ne_nil {c : Content} (h : c.WellFormed) : c.tokens ≠ [] := by
  obtain ⟨names, body?⟩ := c
  cases names with
  | cons name names => exact List.cons_ne_nil _ _
  | nil =>
      cases body? with
      | none => exact absurd rfl (h.nonempty rfl)
      | some b => cases b <;> exact List.cons_ne_nil _ _

/-- The parser takes back the content whose tokens it is given. -/
theorem content_of_tokens {c : Content} (h : c.WellFormed) {ts : List Placed}
    (hts : ts.map Placed.token = c.tokens) : Line.content ts = .ok (some c) := by
  have hne : ts.isEmpty = false := by
    cases ts with
    | nil => exact absurd hts.symm (Content.tokens_ne_nil h)
    | cons t ts => rfl
  obtain ⟨names, body?⟩ := c
  obtain ⟨us, vs, rfl, hus, hvs⟩ := List.map_eq_append_iff.mp hts
  have hnoLabel : NoLabel vs := by
    cases body? with
    | none =>
        obtain rfl := List.map_eq_nil_iff.mp hvs
        nofun
    | some b => exact noLabel_of_body hvs
  have hlabels := labels_of_tokens h.labels hus hnoLabel
  have hbody : ∀ finish, Line.body finish vs = .ok body? := by
    intro finish
    cases body? with
    | none =>
        obtain rfl := List.map_eq_nil_iff.mp hvs
        rfl
    | some b => exact body_of_tokens finish (h.body b rfl) hvs
  simp only [Line.content, hne, hlabels, hbody, bind, Except.bind, Bool.false_eq_true, if_false]
  rfl

/-! ## The tokens of a line can be spelled -/

/-- The token can stand in a line, and its spelling is read as itself. -/
def Token.Spellable : Token → Prop
  | identifier name | directive name => isName name.toList = true
  | newline => False
  | _ => True

theorem mem_separated {t : Token} : ∀ {pieces : List (List Token)}, t ∈ separated pieces →
    t = .comma ∨ ∃ p ∈ pieces, t ∈ p
  | [], h => nomatch h
  | [p], h => by
      rw [separated, List.intercalate_singleton] at h
      exact Or.inr ⟨p, List.mem_cons_self, h⟩
  | p :: q :: pieces, h => by
      rw [separated_cons_cons, List.mem_append, List.mem_cons] at h
      rcases h with h | h | h
      · exact Or.inr ⟨p, List.mem_cons_self, h⟩
      · exact Or.inl h
      · rcases mem_separated h with h | ⟨p', hp', h⟩
        · exact Or.inl h
        · exact Or.inr ⟨p', List.mem_cons_of_mem _ hp', h⟩

theorem Expr.WellFormed.spellable {e : Expr} (he : e.WellFormed) : e.token.Spellable := by
  cases e with
  | number value => trivial
  | label name => exact he.1

theorem Expr.WellFormed.spellable_offset {e : Expr} (he : e.WellFormed) :
    ∀ t ∈ e.offsetTokens, t.Spellable := by
  cases e with
  | number value =>
      rw [Expr.offsetTokens]
      split
      · simp
      · split <;> simp [Token.Spellable]
  | label name => simpa [Expr.offsetTokens, Token.Spellable] using he.1

theorem spellable_of_mem_operand {o : Operand} (ho : o.expr.WellFormed) :
    ∀ t ∈ o.tokens, t.Spellable := by
  have hbase : isName Line.baseName.toList = true := by decide
  obtain ⟨mode, e⟩ := o
  cases mode with
  | immediate => simpa [Operand.tokens] using ho.spellable
  | positional => simpa [Operand.tokens, Token.Spellable] using ho.spellable
  | relative =>
      intro t ht
      simp only [Operand.tokens, List.mem_cons, List.mem_append, List.not_mem_nil, or_false] at ht
      rcases ht with rfl | rfl | ht | rfl
      · trivial
      · exact hbase
      · exact ho.spellable_offset t ht
      · trivial

theorem spellable_of_mem_separated {pieces : List (List Token)}
    (h : ∀ p ∈ pieces, ∀ t ∈ p, t.Spellable) : ∀ t ∈ separated pieces, t.Spellable := by
  intro t ht
  rcases mem_separated ht with rfl | ⟨p, hp, ht⟩
  · trivial
  · exact h p hp t ht

theorem spellable_of_mem_body {b : Body} (h : b.WellFormed) : ∀ t ∈ b.tokens, t.Spellable := by
  cases b with
  | instruction opcode operands =>
      refine List.forall_mem_cons.mpr ⟨isName_mnemonic opcode, spellable_of_mem_separated ?_⟩
      intro p hp
      obtain ⟨o, ho, rfl⟩ := List.mem_map.mp hp
      exact spellable_of_mem_operand (h.exprs o.expr (List.mem_map_of_mem ho))
  | words values =>
      have hword : isName Line.wordDirective.toList = true := by decide
      refine List.forall_mem_cons.mpr ⟨hword, spellable_of_mem_separated ?_⟩
      intro p hp
      obtain ⟨e, he, rfl⟩ := List.mem_map.mp hp
      simpa using (h.exprs e he).spellable

theorem Content.WellFormed.spellable {c : Content} (h : c.WellFormed) :
    ∀ t ∈ c.tokens, t.Spellable := by
  intro t ht
  rcases List.mem_append.mp ht with ht | ht
  · obtain ⟨name, hname, ht⟩ := List.mem_flatMap.mp ht
    simp only [List.mem_cons, List.not_mem_nil, or_false] at ht
    rcases ht with rfl | rfl
    · exact (h.labels name hname).1
    · trivial
  · cases hbody : c.body with
    | none => rw [hbody] at ht; cases ht
    | some b =>
        rw [hbody] at ht
        exact spellable_of_mem_body (h.body b hbody) t ht

/-! ## Lines of text -/

theorem read_of_spells {text : List Char} {c : Content} (hc : c.WellFormed)
    (h : Spells text c.tokens) : Line.read text = .ok (some c) := by
  obtain ⟨ts, hread, hts⟩ := h.read_eq
  rw [hread, content_of_tokens hc hts]

theorem read_of_spells_nil {text : List Char} (h : Spells text []) :
    Line.read text = .ok none := by
  obtain ⟨ts, hread, hts⟩ := h.read_eq
  obtain rfl := List.map_eq_nil_iff.mp hts
  exact hread

/-! ## Sources -/

/-- The statements of lines of which each can be read. -/
theorem exists_readLines {texts : List (List Char)} {contents : List (Option Content)}
    (h : texts.map Line.read = contents.map .ok) (number : Nat) :
    ∃ statements, readLines number texts = .ok statements
      ∧ statements.map Statement.toContent = contents.filterMap id := by
  induction texts generalizing contents number with
  | nil =>
      obtain rfl := List.map_eq_nil_iff.mp h.symm
      exact ⟨[], rfl, rfl⟩
  | cons text texts ih =>
      obtain ⟨content?, contents, rfl, hread, hrest⟩ := List.map_eq_cons_iff.mp h.symm
      obtain ⟨statements, hstatements, hcontents⟩ := ih hrest.symm (number + 1)
      rw [readLines, ← hread]
      cases content? with
      | none => exact ⟨statements, hstatements, hcontents⟩
      | some content =>
          refine ⟨⟨content, number⟩ :: statements, ?_, congrArg (content :: ·) hcontents⟩
          simp only [hstatements]
          rfl

/-- A source that is one line is read as that line. -/
theorem parse_of_newline_not_mem {source : String} (h : '\n' ∉ source.toList) :
    parse source = match Line.read source.toList with
      | .error problem => .error (.onLine 1 problem)
      | .ok none => .ok []
      | .ok (some content) => .ok [⟨content, 1⟩] := by
  rw [parse, List.splitOn_eq_singleton h, readLines]
  rfl

theorem splitOn_newline {texts : List (List Char)} (h : ∀ text ∈ texts, '\n' ∉ text) :
    (texts.flatMap (· ++ ['\n'])).splitOn '\n' = texts ++ [[]] := by
  induction texts with
  | nil => rfl
  | cons text texts ih =>
      rw [List.flatMap_cons, List.append_assoc, List.singleton_append,
        List.splitOn_append_cons_self_of_not_mem (h text List.mem_cons_self),
        ih fun x hx => h x (List.mem_cons_of_mem _ hx)]
      rfl

end Intcode.Assembly
