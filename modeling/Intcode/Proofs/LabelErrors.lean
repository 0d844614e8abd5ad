import Intcode.Proofs.Placement

/-!
# Which sources can be assembled

A source that can be read is assembled unless its labels do not fit together, and
there are two ways in which they may not. A label that is defined again is found
while the addresses are, before anything is encoded, so it goes before every
reference to a label that is not defined, wherever that stands. Of each kind the
first is reported (`assemble_decided`).

Encoding stops at the first expression without a value. Which one it is depends on
the references of the bodies alone, taken as one list (`encodeAll_eq_error_iff`).
-/

namespace Intcode.Assembly

/-! ## Labels in statements -/

/-- The labels that statements define, in order. -/
def definedLabels (statements : List Statement) : List String :=
  statements.flatMap (·.labels)

/-- The label that an expression refers to. -/
def Expr.label? : Expr → Option String
  | number _ => none
  | label name => some name

/-- The labels that a body refers to, in the order of its operands or data words. -/
def Body.references (b : Body) : List String :=
  b.exprs.filterMap Expr.label?

/-- The labels that statements refer to, in order. -/
def references (statements : List Statement) : List String :=
  (bodies statements).flatMap Body.references

/-- The name is the first in the list that stands in it before. -/
def FirstRepeat (names : List String) (name : String) : Prop :=
  ∃ before after, names = before ++ name :: after ∧ before.Nodup ∧ name ∈ before

/-- The name is the first in the list that is not among the defined ones. -/
def FirstMissing (defined names : List String) (name : String) : Prop :=
  ∃ before after, names = before ++ name :: after ∧ (∀ x ∈ before, x ∈ defined)
    ∧ name ∉ defined

theorem firstMissing_iff_find? {defined names : List String} {p : String → Bool}
    (hp : ∀ x, p x = true ↔ x ∉ defined) {name : String} :
    names.find? p = some name ↔ FirstMissing defined names name := by
  have hnot (x : String) : (!p x) = true ↔ x ∈ defined := by
    rw [Bool.not_eq_true', ← Bool.not_eq_true, hp, Classical.not_not]
  simp only [List.find?_eq_some_iff_append, hp, hnot, FirstMissing]
  constructor
  · rintro ⟨hname, before, after, heq, hbefore⟩
    exact ⟨before, after, heq, hbefore, hname⟩
  · rintro ⟨before, after, heq, hbefore, hname⟩
    exact ⟨hname, before, after, heq, hbefore⟩

theorem exists_firstMissing_iff {defined names : List String} :
    (∃ name, FirstMissing defined names name) ↔ ∃ x ∈ names, x ∉ defined := by
  have hp (x : String) : decide (x ∉ defined) = true ↔ x ∉ defined := decide_eq_true_iff
  simp only [← firstMissing_iff_find? hp, ← Option.isSome_iff_exists, List.find?_isSome, hp]

/-! ## Repeated labels -/

theorem firstRepeated?_eq_some_iff {seen names : List String} {name : String} :
    firstRepeated? seen names = some name ↔
      ∃ before after, names = before ++ name :: after ∧ before.Nodup
        ∧ (∀ x ∈ before, x ∉ seen) ∧ (name ∈ before ∨ name ∈ seen) := by
  constructor
  · intro h
    induction names generalizing seen with
    | nil => cases h
    | cons n names ih =>
        rw [firstRepeated?] at h
        split at h
        next hseen =>
          cases h
          exact ⟨[], names, rfl, List.nodup_nil, List.forall_mem_nil _, Or.inr hseen⟩
        next hnew =>
          obtain ⟨before, after, rfl, hnodup, hbefore, hname⟩ := ih h
          have hn : n ∉ before := fun hmem => hbefore n hmem List.mem_cons_self
          refine ⟨n :: before, after, rfl, List.nodup_cons.mpr ⟨hn, hnodup⟩, ?_, ?_⟩
          · refine List.forall_mem_cons.mpr ⟨hnew, fun x hx hseen => ?_⟩
            exact hbefore x hx (List.mem_cons_of_mem _ hseen)
          · simp only [List.mem_cons] at hname ⊢
            rw [or_assoc, or_left_comm]
            exact hname
  · rintro ⟨before, after, rfl, hnodup, hbefore, hname⟩
    induction before generalizing seen with
    | nil =>
        rw [List.nil_append, firstRepeated?, if_pos (hname.resolve_left (by simp))]
    | cons n before ih =>
        obtain ⟨hn, hnodup⟩ := List.nodup_cons.mp hnodup
        obtain ⟨hnew, hbefore⟩ := List.forall_mem_cons.mp hbefore
        rw [List.cons_append, firstRepeated?, if_neg hnew]
        refine ih hnodup ?_ ?_
        · intro x hx hmem
          rcases List.mem_cons.mp hmem with rfl | hseen
          · exact hn hx
          · exact hbefore x hx hseen
        · simp only [List.mem_cons] at hname ⊢
          rw [or_left_comm, ← or_assoc]
          exact hname

theorem firstRepeat_iff {names : List String} {name : String} :
    firstRepeated? [] names = some name ↔ FirstRepeat names name := by
  simp [firstRepeated?_eq_some_iff, FirstRepeat]

theorem FirstRepeat.not_nodup {names : List String} {name : String}
    (h : FirstRepeat names name) : ¬ names.Nodup := by
  obtain ⟨before, after, rfl, -, hmem⟩ := h
  intro hnodup
  exact (List.nodup_append.mp hnodup).2.2 name hmem name List.mem_cons_self rfl

theorem firstRepeated?_eq_none_iff {names : List String} :
    firstRepeated? [] names = none ↔ names.Nodup := by
  constructor
  · intro h
    exact (nodup_of_firstRepeated? h).1
  · intro hnodup
    refine Option.eq_none_iff_forall_ne_some.mpr fun name hname => ?_
    exact (firstRepeat_iff.mp hname).not_nodup hnodup

theorem nodup_or_firstRepeat (names : List String) :
    names.Nodup ∨ ∃ name, FirstRepeat names name := by
  cases h : firstRepeated? [] names with
  | none => exact Or.inl (firstRepeated?_eq_none_iff.mp h)
  | some name => exact Or.inr ⟨name, firstRepeat_iff.mp h⟩

/-! ## References without a definition -/

section Encoding

variable {address? : String → Option Word}

theorem values_eq_error_iff {es : List Expr} {e : Error} :
    values address? es = .error e ↔
      ∃ name, (es.filterMap Expr.label?).find? (fun n => (address? n).isNone) = some name
        ∧ e = .undefinedLabel name := by
  induction es with
  | nil => simp [values]
  | cons x es ih =>
      cases x with
      | number value =>
          rw [List.filterMap_cons_none rfl, ← ih, values]
          cases values address? es <;> simp [Expr.value, bind, Except.bind, pure, Except.pure]
      | label n =>
          have hlabel : Expr.label? (.label n) = some n := rfl
          rw [List.filterMap_cons_some hlabel, List.find?_cons, values, Expr.value]
          cases address? n with
          | none => simp [bind, Except.bind, eq_comm]
          | some w =>
              simp only [Option.isNone_some, ← ih]
              cases values address? es <;> simp [bind, Except.bind, pure, Except.pure]

theorem encode_eq_error_iff {b : Body} {e : Error} :
    b.encode address? = .error e ↔
      ∃ name, b.references.find? (fun n => (address? n).isNone) = some name
        ∧ e = .undefinedLabel name := by
  rw [Body.references, ← values_eq_error_iff]
  cases b with
  | instruction opcode operands => exact map_eq_error_iff
  | words es => exact Iff.rfl

theorem encodeAll_eq_error_iff {bs : List Body} {e : Error} :
    encodeAll address? bs = .error e ↔
      ∃ name, (bs.flatMap Body.references).find? (fun n => (address? n).isNone) = some name
        ∧ e = .undefinedLabel name := by
  induction bs with
  | nil => simp [encodeAll]
  | cons b bs ih =>
      rw [List.flatMap_cons, List.find?_append, encodeAll]
      cases hblock : b.encode address? with
      | error e' =>
          obtain ⟨name, hname, rfl⟩ := encode_eq_error_iff.mp hblock
          simp [hname, bind, Except.bind, eq_comm]
      | ok block =>
          have hnone : b.references.find? (fun n => (address? n).isNone) = none := by
            refine Option.eq_none_iff_forall_ne_some.mpr fun name hname => ?_
            have herror := encode_eq_error_iff.mpr ⟨name, hname, rfl⟩
            rw [hblock] at herror
            cases herror
          rw [hnone, Option.none_or, ← ih]
          cases encodeAll address? bs <;> simp [bind, Except.bind, pure, Except.pure]

end Encoding

theorem isNone_addressOf? (definitions : List (String × Nat)) (name : String) :
    (addressOf? definitions name).isNone = true ↔ name ∉ definitions.map Prod.fst := by
  rw [Option.isNone_iff_eq_none, addressOf?, Option.map_eq_none_iff, List.lookup_eq_none_iff,
    List.mem_map]
  constructor
  · rintro h ⟨p, hp, rfl⟩
    simpa using h p hp
  · intro h p hp
    refine bne_iff_ne.mpr fun heq => h ⟨p, hp, heq.symm⟩

/-! ## What is decided -/

theorem layout_of_firstRepeat {statements : List Statement} {name : String}
    (h : FirstRepeat (definedLabels statements) name) :
    layout statements = .error (.duplicateLabel name) := by
  rw [definedLabels, ← map_fst_definitions 0, ← firstRepeat_iff] at h
  rw [layout, h]

theorem layout_of_nodup {statements : List Statement} (h : (definedLabels statements).Nodup) :
    layout statements
      = (encodeAll (addressOf? (definitions 0 statements)) (bodies statements)).map
          Program.mk := by
  rw [definedLabels, ← map_fst_definitions 0, ← firstRepeated?_eq_none_iff] at h
  rw [layout, h]
  rfl

/-- If no label is defined twice, the first reference to a missing one decides. -/
theorem layout_eq_error_iff_of_nodup {statements : List Statement}
    (h : (definedLabels statements).Nodup) {e : Error} :
    layout statements = .error e ↔
      ∃ name, FirstMissing (definedLabels statements) (references statements) name
        ∧ e = .undefinedLabel name := by
  have hmissing (x : String) : (addressOf? (definitions 0 statements) x).isNone = true
      ↔ x ∉ definedLabels statements := by
    rw [isNone_addressOf?, map_fst_definitions]
    rfl
  rw [layout_of_nodup h, map_eq_error_iff, encodeAll_eq_error_iff]
  simp only [firstMissing_iff_find? hmissing]
  rfl

theorem layout_eq_duplicateLabel_iff {statements : List Statement} {name : String} :
    layout statements = .error (.duplicateLabel name) ↔
      FirstRepeat (definedLabels statements) name := by
  constructor
  · intro h
    rcases nodup_or_firstRepeat (definedLabels statements) with hnodup | ⟨name', hrepeat⟩
    · obtain ⟨_, -, ⟨⟩⟩ := (layout_eq_error_iff_of_nodup hnodup).mp h
    · rw [layout_of_firstRepeat hrepeat] at h
      cases h
      exact hrepeat
  · exact layout_of_firstRepeat

theorem layout_eq_undefinedLabel_iff {statements : List Statement} {name : String} :
    layout statements = .error (.undefinedLabel name) ↔
      (definedLabels statements).Nodup
        ∧ FirstMissing (definedLabels statements) (references statements) name := by
  rcases nodup_or_firstRepeat (definedLabels statements) with hnodup | ⟨name', hrepeat⟩
  · simp [layout_eq_error_iff_of_nodup hnodup, hnodup]
  · simp [layout_of_firstRepeat hrepeat, hrepeat.not_nodup]

theorem exists_layout_iff {statements : List Statement} :
    (∃ p, layout statements = .ok p) ↔
      (definedLabels statements).Nodup
        ∧ ∀ name ∈ references statements, name ∈ definedLabels statements := by
  rcases nodup_or_firstRepeat (definedLabels statements) with hnodup | ⟨name', hrepeat⟩
  · have hfails : (∃ e, layout statements = .error e) ↔
        ∃ x ∈ references statements, x ∉ definedLabels statements := by
      simp only [layout_eq_error_iff_of_nodup hnodup, ← exists_firstMissing_iff]
      constructor
      · rintro ⟨_, name, hname, rfl⟩
        exact ⟨name, hname⟩
      · rintro ⟨name, hname⟩
        exact ⟨_, name, hname, rfl⟩
    have hok : (∃ p, layout statements = .ok p) ↔ ¬ ∃ e, layout statements = .error e := by
      cases layout statements <;> simp
    rw [hok, hfails]
    simp [hnodup]
  · simp [layout_of_firstRepeat hrepeat, hrepeat.not_nodup]

theorem layout_ne_onLine (statements : List Statement) (line : Nat) (problem : Problem) :
    layout statements ≠ .error (.onLine line problem) := by
  intro h
  rcases nodup_or_firstRepeat (definedLabels statements) with hnodup | ⟨name, hrepeat⟩
  · obtain ⟨_, -, ⟨⟩⟩ := (layout_eq_error_iff_of_nodup hnodup).mp h
  · rw [layout_of_firstRepeat hrepeat] at h
    cases h

/-- **What decides.** First whether the source can be read, then whether a label is defined
twice, and last whether a reference is to no label. If nothing of this is so, there is a
program. -/
theorem assemble_decided (source : String) :
    (∀ e, parse source = .error e → assemble source = .error e)
      ∧ (∀ statements, parse source = .ok statements →
          (∀ name, assemble source = .error (.duplicateLabel name) ↔
            FirstRepeat (definedLabels statements) name)
          ∧ (∀ name, assemble source = .error (.undefinedLabel name) ↔
            (definedLabels statements).Nodup
              ∧ FirstMissing (definedLabels statements) (references statements) name)
          ∧ ∀ line problem, assemble source ≠ .error (.onLine line problem))
      ∧ ((∃ p, assemble source = .ok p) ↔
          ∃ statements, parse source = .ok statements ∧ (definedLabels statements).Nodup
            ∧ ∀ name ∈ references statements, name ∈ definedLabels statements) := by
  have hlayout {statements : List Statement} (h : parse source = .ok statements) :
      assemble source = layout statements := by
    rw [assemble, h]
    rfl
  have hfails {e : Error} (h : parse source = .error e) : assemble source = .error e := by
    rw [assemble, h]
    rfl
  refine ⟨fun e => hfails, ?_, ?_⟩
  · intro statements h
    rw [hlayout h]
    exact ⟨fun name => layout_eq_duplicateLabel_iff, fun name => layout_eq_undefinedLabel_iff,
      layout_ne_onLine statements⟩
  · constructor
    · rintro ⟨p, hp⟩
      obtain ⟨statements, hparse, hp⟩ := bind_eq_ok_iff.mp hp
      exact ⟨statements, hparse, exists_layout_iff.mp ⟨p, hp⟩⟩
    · rintro ⟨statements, hparse, hlabels⟩
      rw [hlayout hparse]
      exact exists_layout_iff.mpr hlabels

/-- Two labels are not defined, and a third one is twice, on the last line. -/
def missingAndRepeated : String :=
  "a: jnz [c], d\nb: a: .word a"

theorem assemble_decided_missingAndRepeated :
    (∃ statements, parse missingAndRepeated = .ok statements
        ∧ FirstRepeat (definedLabels statements) "a")
      ∧ assemble missingAndRepeated = .error (.duplicateLabel "a") := by
  have hparse : parse missingAndRepeated = .ok
      [⟨⟨["a"], some (.instruction .jumpIfTrue
          [⟨.positional, .label "c"⟩, ⟨.immediate, .label "d"⟩])⟩, 1⟩,
        ⟨⟨["b", "a"], some (.words [.label "a"])⟩, 2⟩] := by
    decide +kernel
  have hrepeat : FirstRepeat ["a", "b", "a"] "a" :=
    ⟨["a", "b"], [], rfl, by decide, by decide⟩
  exact ⟨⟨_, hparse, hrepeat⟩, (((assemble_decided _).2.1 _ hparse).1 "a").mpr hrepeat⟩

end Intcode.Assembly
