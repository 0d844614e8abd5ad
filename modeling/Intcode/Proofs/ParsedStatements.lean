import Intcode.Proofs.ParsedLine

/-!
# Every parsed statement is well formed

The parser makes no statement that could not be written down. Names come from
the lexer, which lets nothing pass for a name that is none (`named_of_tokens`);
the rest is checked by the parser itself, and each of its functions is taken
through once, with the tokens that it leaves: what is read from tokens with
proper names is well formed (`Named.operand`, `Named.body` and so on).
-/

namespace Intcode.Assembly

/-! ## Names -/

/-- The names among the tokens are names. -/
def Named (ts : List Placed) : Prop :=
  ∀ t ∈ ts, ∀ name, t.token = .identifier name → isName name.toList = true

theorem Named.tail {t : Placed} {ts : List Placed} (h : Named (t :: ts)) : Named ts :=
  fun x hx => h x (List.mem_cons_of_mem _ hx)

theorem isName_of_reading {c : Char} {rest : List Char} {name : String}
    (h : reading c rest = .token (.identifier name)) : isName name.toList = true := by
  rw [reading, rule] at h
  split at h
  · cases h
  split at h
  · cases h
  split at h
  next hstarts =>
    have hname : String.ofList (piece c rest) = name := by
      cases h
      rfl
    rw [← hname, String.toList_ofList, piece, rule_of_startsName hstarts, isName, hstarts,
      Bool.true_and]
    exact List.all_takeWhile
  split at h
  · simp only [Rule.number] at h
    split at h <;> cases h
  split at h
  · cases h
  split at h
  next token hmark =>
    unfold mark? at hmark
    split at hmark <;> cases hmark <;> cases h
  next => cases h

theorem isName_of_mem_lexemes {start : Nat} {text : List Char} {l : Lexeme} {name : String}
    (hl : l ∈ lexemes start text) (htoken : l.token? = some (.identifier name)) :
    isName name.toList = true := by
  fun_induction lexemes start text with
  | case1 => cases hl
  | case2 start c rest text others hreading ih => exact ih hl
  | case3 start c rest text others t hreading ih =>
      rcases List.mem_cons.mp hl with rfl | hl
      · cases htoken
        exact isName_of_reading hreading
      · exact ih hl
  | case4 start c rest text others hreading ih =>
      rcases List.mem_cons.mp hl with rfl | hl
      · cases htoken
      · exact ih hl

theorem mem_of_tokens {ls : List Lexeme} {ts : List Placed} (h : Line.tokens ls = .ok ts)
    {t : Placed} (ht : t ∈ ts) : ∃ l ∈ ls, l.token? = some t.token := by
  induction ls generalizing ts with
  | nil =>
      cases h
      cases ht
  | cons l ls ih =>
      rw [Line.tokens] at h
      split at h
      next => cases h
      next token htoken =>
        obtain ⟨ts, hts, rfl⟩ := map_eq_ok_iff.mp h
        rcases List.mem_cons.mp ht with rfl | ht
        · exact ⟨l, List.mem_cons_self, htoken⟩
        · obtain ⟨l', hl', htoken'⟩ := ih hts ht
          exact ⟨l', List.mem_cons_of_mem _ hl', htoken'⟩

theorem named_of_tokens {start : Nat} {text : List Char} {ts : List Placed}
    (h : Line.tokens (lexemes start text) = .ok ts) : Named ts := by
  intro t ht name hname
  obtain ⟨l, hl, htoken⟩ := mem_of_tokens h ht
  exact isName_of_mem_lexemes hl (hname ▸ htoken)

/-! ## Expressions and operands -/

namespace Named

variable {finish : Nat} {ts rest : List Placed}

theorem expr {e : Expr} (hts : Named ts) (h : Line.expr finish ts = .ok (e, rest)) :
    e.WellFormed ∧ Named rest := by
  unfold Line.expr at h
  split at h
  next => cases h; exact ⟨trivial, hts.tail⟩
  next name column tail =>
    split at h
    next => cases h
    next hname =>
      cases h
      exact ⟨⟨hts _ List.mem_cons_self name rfl, hname⟩, hts.tail⟩
  next => cases h

theorem expect {token : Token} (hts : Named ts) (h : Line.expect finish token ts = .ok rest) :
    Named rest := by
  unfold Line.expect at h
  split at h
  · split at h
    · cases h
      exact hts.tail
    · cases h
  · cases h

theorem offset {e : Expr} (hts : Named ts) (h : Line.offset finish ts = .ok (e, rest)) :
    e.WellFormed ∧ Named rest := by
  unfold Line.offset at h
  split at h
  next => cases h; exact ⟨trivial, hts⟩
  next => exact hts.tail.expr h
  next =>
    split at h
    · cases h
      exact ⟨trivial, hts.tail.tail⟩
    · cases h
  next => cases h
  next =>
    split at h
    · cases h
      exact ⟨trivial, hts.tail⟩
    · cases h
  next => cases h

theorem bracketed {o : Operand} (hts : Named ts)
    (h : Line.bracketed finish ts = .ok (o, rest)) : o.expr.WellFormed ∧ Named rest := by
  unfold Line.bracketed at h
  split at h
  next name column tail =>
    split at h
    next =>
      obtain ⟨⟨e, tail'⟩, he, ⟨⟩⟩ := map_eq_ok_iff.mp h
      exact hts.tail.offset he
    next hname =>
      cases h
      exact ⟨⟨hts _ List.mem_cons_self name rfl, hname⟩, hts.tail⟩
  next =>
    obtain ⟨⟨e, tail'⟩, he, ⟨⟩⟩ := map_eq_ok_iff.mp h
    exact hts.expr he

theorem operand {o : Operand} (hts : Named ts) (h : Line.operand finish ts = .ok (o, rest)) :
    o.expr.WellFormed ∧ Named rest := by
  unfold Line.operand at h
  split at h
  next column tail =>
    obtain ⟨⟨o', tail'⟩, ho, h⟩ := bind_eq_ok_iff.mp h
    obtain ⟨tail'', hclose, h⟩ := bind_eq_ok_iff.mp h
    cases h
    obtain ⟨hexpr, htail⟩ := hts.tail.bracketed ho
    exact ⟨hexpr, htail.expect hclose⟩
  next =>
    obtain ⟨⟨e, tail'⟩, he, ⟨⟩⟩ := map_eq_ok_iff.mp h
    exact hts.expr he

theorem operands {os : List Operand} (hts : Named ts)
    (h : Line.operands finish ts = .ok os) : ∀ o ∈ os, o.expr.WellFormed := by
  induction os generalizing ts with
  | nil => nofun
  | cons o os ih =>
      obtain ⟨_, rest, hoperand, ⟨-, hos⟩ | ⟨t, tail, _, rfl, htail, hos⟩⟩ := operands_cases h
      · cases hos
        simpa using (hts.operand hoperand).1
      · cases hos
        obtain ⟨ho, hrest⟩ := hts.operand hoperand
        exact List.forall_mem_cons.mpr ⟨ho, ih hrest.tail htail⟩

theorem exprs {es : List Expr} (hts : Named ts) (h : Line.exprs finish ts = .ok es) :
    ∀ e ∈ es, e.WellFormed := by
  induction es generalizing ts with
  | nil => nofun
  | cons e es ih =>
      obtain ⟨t, _, _, _, rfl, he, ⟨-, hes⟩ | ⟨comma, tail, _, rfl, htail, hes⟩⟩ := exprs_cases h
      all_goals
        cases hes
        have ht : Named [t] := fun x hx => hts x (List.mem_singleton.mp hx ▸ List.mem_cons_self)
      · simpa using (ht.expr he).1
      · exact List.forall_mem_cons.mpr ⟨(ht.expr he).1, ih hts.tail.tail htail⟩

/-! ## Bodies and labels -/

theorem instruction {mnemonic : String} {b : Body} (hts : Named ts)
    (h : Line.instruction finish mnemonic ts = .ok b) : b.WellFormed := by
  obtain ⟨opcode, os, -, hos, hlength, hdestination, rfl⟩ := (instruction_eq_ok_iff finish).mp h
  refine ⟨hlength, hdestination, ?_, ?_⟩
  · intro e he
    obtain ⟨o, ho, rfl⟩ := List.mem_map.mp he
    split at hos
    · cases hos
      cases ho
    · exact hts.operands hos o ho
  · rw [Body.width, Opcode.width]
    omega

theorem body {b : Body} (hts : Named ts) (h : Line.body finish ts = .ok (some b)) :
    b.WellFormed := by
  unfold Line.body at h
  split at h
  next => cases h
  next =>
    obtain ⟨_, hb, ⟨⟩⟩ := map_eq_ok_iff.mp h
    exact hts.tail.instruction hb
  next =>
    split at h
    · obtain ⟨es, hes, ⟨⟩⟩ := map_eq_ok_iff.mp h
      exact ⟨trivial, trivial, hts.tail.exprs hes, Nat.ne_of_gt (length_of_exprs hes).1⟩
    · cases h
  next => cases h

theorem labels {names : List String} (hts : Named ts)
    (h : Line.labels ts = .ok (names, rest)) :
    (∀ name ∈ names, IsLabel name) ∧ Named rest ∧ (names = [] → rest = ts) := by
  fun_induction Line.labels ts generalizing names with
  | case1 => cases h
  | case2 name column column' tail hname ih =>
      obtain ⟨⟨names, _⟩, htail, ⟨⟩⟩ := map_eq_ok_iff.mp h
      obtain ⟨hnames, hrest, -⟩ := ih hts.tail.tail htail
      have hlabel : IsLabel name := ⟨hts _ List.mem_cons_self name rfl, hname⟩
      exact ⟨List.forall_mem_cons.mpr ⟨hlabel, hnames⟩, hrest, by simp⟩
  | case3 =>
      cases h
      exact ⟨by simp, hts, fun _ => rfl⟩

end Named

/-! ## Lines -/

theorem eq_nil_of_body {finish : Nat} {ts : List Placed} (h : Line.body finish ts = .ok none) :
    ts = [] := by
  unfold Line.body at h
  split at h
  next => rfl
  next => obtain ⟨_, -, hsome⟩ := map_eq_ok_iff.mp h; cases hsome
  next =>
    split at h
    · obtain ⟨_, -, hsome⟩ := map_eq_ok_iff.mp h
      cases hsome
    · cases h
  next => cases h

theorem wellFormed_of_read {text : List Char} {c : Content}
    (h : Line.read text = .ok (some c)) : c.WellFormed := by
  obtain ⟨ts, hts, h⟩ := bind_eq_ok_iff.mp h
  obtain ⟨rest, hne, hlabels, hbody⟩ := content_cases h
  obtain ⟨hnames, hrest, hsame⟩ := (named_of_tokens hts).labels hlabels
  refine ⟨hnames, ?_, ?_⟩
  · intro b hb
    rw [Option.mem_def.mp hb] at hbody
    exact hrest.body hbody
  · intro hnil hnone
    rw [hnone] at hbody
    exact hne ((hsame hnil).symm.trans (eq_nil_of_body hbody))

end Intcode.Assembly
