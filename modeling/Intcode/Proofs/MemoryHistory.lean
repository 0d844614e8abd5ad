import Mathlib.Data.Finset.Sort
import Mathlib.Data.Finset.Lattice.Fold
import Mathlib.Order.Lattice.Nat
import Intcode.Memory

/-!
# Memory as a record of its history

What a memory answers depends only on what was asked of it before: a cell holds
the last word written to it since the last load, or else what was loaded there,
or else zero. A `History` is the list of earlier requests, latest first, and the
right answers are read off it by looking back (`History.answer`). Memory gives
these answers, whatever it is asked and in whatever order (`session_refines`).

`Tracks` is the invariant that carries the proof. It says of every address
whether a word is stored there and which, so that one lemma for each request
suffices (`Tracks.serve`), and everything that can be seen of a memory follows
from it.
-/

namespace Intcode

/-! ## Requests and answers -/

namespace Memory

inductive Request where
  | load (words : List Word)
  | write (address value : Word)
  | read (address : Word)
  | get (address : Nat)
  | snapshot

inductive Answer where
  | done
  | value (w : Word)
  | cells (cells : List (Nat × Word))
  | failed (fault : Fault)
deriving DecidableEq

/-- The memory after a request, and its answer. -/
def serve (m : Memory) : Request → Memory × Answer
  | .load words => (.load words, .done)
  | .write address value =>
    match m.write address value with
    | .ok m' => (m', .done)
    | .error fault => (m, .failed fault)
  | .read address =>
    match m.read address with
    | .ok w => (m, .value w)
    | .error fault => (m, .failed fault)
  | .get address => (m, .value (m.get address))
  | .snapshot => (m, .cells m.snapshot)

/-- The memory after consecutive requests, and all of its answers. -/
def session (m : Memory) : List Request → Memory × List Answer
  | [] => (m, [])
  | r :: rs =>
    let rest := (m.serve r).1.session rs
    (rest.1, (m.serve r).2 :: rest.2)

end Memory

open Memory (Request Answer)

/-! ## Looking back -/

/-- What was asked of a memory, latest first. -/
abbrev History := List Request

namespace History

/-- The words of the last load. -/
def loaded : History → List Word
  | [] => []
  | .load words :: _ => words
  | _ :: past => loaded past

/-- The writes since the last load, latest first. A write to a negative address is none. -/
def writes : History → List (Nat × Word)
  | [] => []
  | .load _ :: _ => []
  | .write address value :: past =>
    if 0 ≤ address.toInt then (address.toInt.toNat, value) :: writes past else writes past
  | _ :: past => writes past

/-- The last word written to a cell since the last load, or what was loaded there, or zero. -/
def value (past : History) (address : Nat) : Word :=
  (past.writes.lookup address).getD (past.loaded.getD address 0)

/-- The addresses written since the last load. -/
def written (past : History) : Finset Nat :=
  (past.writes.map Prod.fst).toFinset

/-- The addresses loaded or written since the last load. -/
def addresses (past : History) : Finset Nat :=
  Finset.range past.loaded.length ∪ past.written

/-- One more than the highest address written, and at least the number of words loaded. -/
def extent (past : History) : Nat :=
  max past.loaded.length (past.written.sup (· + 1))

def cells (past : History) : List (Nat × Word) :=
  (past.addresses.sort (· ≤ ·)).map fun a => (a, past.value a)

/-- The right answer to a request. -/
def answer (past : History) : Request → Answer
  | .load _ => .done
  | .write address _ => if 0 ≤ address.toInt then .done else .failed (.invalidAddress address)
  | .read address =>
    if 0 ≤ address.toInt then .value (past.value address.toInt.toNat)
    else .failed (.invalidAddress address)
  | .get address => .value (past.value address)
  | .snapshot => .cells past.cells

/-- The right answers to consecutive requests. -/
def answers (past : History) : List Request → List Answer
  | [] => []
  | r :: rs => past.answer r :: answers (r :: past) rs

/-! ## Histories that go on -/

variable {past past' : History}

theorem writes_write {address : Word} {a : Nat} (h : address.toInt = a) (value : Word)
    (past : History) : writes (.write address value :: past) = (a, value) :: past.writes := by
  rw [writes, if_pos (by omega), h]
  rfl

theorem writes_write_of_neg {address : Word} (h : address.toInt < 0) (value : Word)
    (past : History) : writes (.write address value :: past) = past.writes := by
  rw [writes, if_neg (by omega)]

theorem value_of_write {a : Nat} {w : Word} (hloaded : past'.loaded = past.loaded)
    (hwrites : past'.writes = (a, w) :: past.writes) (b : Nat) :
    past'.value b = if a = b then w else past.value b := by
  rw [value, value, hloaded, hwrites, List.lookup_cons]
  by_cases heq : a = b
  · simp [heq]
  · have hne : (b == a) = false := by simpa using Ne.symm heq
    simp [heq, hne]

theorem written_of_write {a : Nat} {w : Word} (hwrites : past'.writes = (a, w) :: past.writes) :
    past'.written = insert a past.written := by
  rw [written, hwrites, List.map_cons, List.toFinset_cons]
  rfl

theorem addresses_of_write {a : Nat} {w : Word} (hloaded : past'.loaded = past.loaded)
    (hwrites : past'.writes = (a, w) :: past.writes) :
    past'.addresses = insert a past.addresses := by
  rw [addresses, addresses, hloaded, written_of_write hwrites, Finset.union_insert]

theorem extent_of_write {a : Nat} {w : Word} (hloaded : past'.loaded = past.loaded)
    (hwrites : past'.writes = (a, w) :: past.writes) :
    past'.extent = max past.extent (a + 1) := by
  rw [extent, extent, hloaded, written_of_write hwrites, Finset.sup_insert, max_assoc,
    max_comm (past.written.sup (· + 1))]

/-! ## Bounds -/

theorem lt_extent {a : Nat} (h : a ∈ past.addresses) : a < past.extent := by
  rcases Finset.mem_union.mp h with h | h
  · exact Nat.lt_of_lt_of_le (Finset.mem_range.mp h) (Nat.le_max_left _ _)
  · have hle : a + 1 ≤ past.written.sup (· + 1) := Finset.le_sup (f := (· + 1)) h
    exact Nat.lt_of_lt_of_le hle (Nat.le_max_right _ _)

theorem length_loaded_le (h : ∀ words, .load words ∈ past → words.length < 0x8000000000000000) :
    past.loaded.length ≤ 0x8000000000000000 := by
  induction past with
  | nil => exact Nat.zero_le _
  | cons r past ih =>
      have hpast := ih fun words hmem => h words (List.mem_cons_of_mem _ hmem)
      cases r with
      | load words => exact Nat.le_of_lt (h words List.mem_cons_self)
      | write | read | get | snapshot => exact hpast

/-- The address of a write is a word, so that one more than it still has 64 bits. -/
theorem lt_of_mem_written {a : Nat} (h : a ∈ past.written) : a < 0x8000000000000000 := by
  rw [written, List.mem_toFinset] at h
  induction past with
  | nil => cases h
  | cons r past ih =>
      cases r with
      | load words => cases h
      | write address value =>
          rcases Int.lt_or_le address.toInt 0 with hneg | hnonneg
          · rw [writes_write_of_neg hneg] at h
            exact ih h
          · rw [writes_write (Int.toNat_of_nonneg hnonneg).symm, List.map_cons] at h
            rcases List.mem_cons.mp h with rfl | h
            · have := address.toInt_lt
              omega
            · exact ih h
      | read | get | snapshot => exact ih h

theorem extent_le (h : ∀ words, .load words ∈ past → words.length < 0x8000000000000000) :
    past.extent ≤ 0x8000000000000000 := by
  refine Nat.max_le.mpr ⟨length_loaded_le h, Finset.sup_le fun a ha => ?_⟩
  exact lt_of_mem_written ha

end History

/-! ## Memory keeps track -/

namespace Memory

/-- Memory stores what its history says, and nothing else. -/
structure Tracks (m : Memory) (past : History) : Prop where
  cells : ∀ a, m.cells[a]? = if a ∈ past.addresses then some (past.value a) else none
  loadedLength : m.loadedLength = past.loaded.length
  extent : m.extent = past.extent

theorem tracks_empty : Tracks empty [] where
  cells := by
    intro a
    rw [empty, Std.TreeMap.getElem?_emptyc]
    simp [History.addresses, History.written, History.loaded, History.writes]
  loadedLength := rfl
  extent := rfl

theorem tracks_load (words : List Word) (past : History) :
    Tracks (load words) (.load words :: past) where
  cells := by
    intro a
    rw [getElem?_cells_load]
    by_cases ha : a < words.length
    · simp [History.addresses, History.written, History.value, History.loaded, History.writes, ha]
    · simp [History.addresses, History.written, History.loaded, History.writes, ha]
  loadedLength := rfl
  extent := by simp [load, History.extent, History.written, History.loaded, History.writes]

variable {m : Memory} {past past' : History}

theorem Tracks.set (h : Tracks m past) {a : Nat} {w : Word}
    (hloaded : past'.loaded = past.loaded) (hwrites : past'.writes = (a, w) :: past.writes) :
    Tracks (m.set a w) past' where
  cells := by
    intro b
    rw [Memory.set, Std.TreeMap.getElem?_insert, h.cells, History.value_of_write hloaded hwrites,
      History.addresses_of_write hloaded hwrites]
    by_cases heq : a = b
    · simp [heq]
    · have hne : b ≠ a := Ne.symm heq
      simp [heq, hne]
  loadedLength := by rw [loadedLength_set, h.loadedLength, hloaded]
  extent := by rw [extent_set, h.extent, History.extent_of_write hloaded hwrites]

/-- Only loads and successful writes count. -/
theorem Tracks.of_same (h : Tracks m past) (hloaded : past'.loaded = past.loaded)
    (hwrites : past'.writes = past.writes) : Tracks m past' := by
  have hwritten : past'.written = past.written := by rw [History.written, hwrites]; rfl
  have haddresses : past'.addresses = past.addresses := by
    rw [History.addresses, hloaded, hwritten]
    rfl
  refine ⟨fun a => ?_, by rw [h.loadedLength, hloaded], ?_⟩
  · rw [h.cells, haddresses, History.value, History.value, hloaded, hwrites]
  · rw [h.extent, History.extent, History.extent, hloaded, hwritten]

/-! ## What can be seen of a memory -/

theorem Tracks.get_eq (h : Tracks m past) (a : Nat) : m.get a = past.value a := by
  rw [get, Std.TreeMap.getD_eq_getD_getElem?, h.cells]
  by_cases ha : a ∈ past.addresses
  · rw [if_pos ha, Option.getD_some]
  · -- neither written nor loaded
    rw [if_neg ha, Option.getD_none]
    simp only [History.addresses, History.written, Finset.mem_union, Finset.mem_range,
      List.mem_toFinset, not_or] at ha
    have hlookup : past.writes.lookup a = none := by
      rw [List.lookup_eq_none_iff]
      intro p hp
      simpa using fun heq : a = p.1 => ha.2 (List.mem_map.mpr ⟨p, hp, heq.symm⟩)
    rw [History.value, hlookup, Option.getD_none, List.getD_eq_getElem?_getD,
      List.getElem?_eq_none (by omega), Option.getD_none]

theorem ascending_snapshot (m : Memory) : m.snapshot.Pairwise fun p q => p.1 < q.1 := by
  refine Std.TreeMap.ordered_keys_toList.imp ?_
  intro p q hlt
  exact Nat.compare_eq_lt.mp hlt

theorem Tracks.mem_snapshot (h : Tracks m past) (a : Nat) (w : Word) :
    (a, w) ∈ m.snapshot ↔ a ∈ past.addresses ∧ w = past.value a := by
  rw [snapshot, Std.TreeMap.mem_toList_iff_getElem?_eq_some, h.cells]
  by_cases ha : a ∈ past.addresses
  · simp [ha, eq_comm]
  · simp [ha]

/-- There is only one list with the right cells in ascending order. -/
theorem Tracks.snapshot_eq (h : Tracks m past) : m.snapshot = past.cells := by
  have hirrefl : Std.Irrefl fun p q : Nat × Word => p.1 < q.1 := ⟨fun p => Nat.lt_irrefl p.1⟩
  have hantisymm : Std.Antisymm fun p q : Nat × Word => p.1 < q.1 :=
    ⟨fun p q hpq hqp => absurd hqp (Nat.lt_asymm hpq)⟩
  have hsorted : past.cells.Pairwise fun p q => p.1 < q.1 := by
    rw [History.cells, List.pairwise_map]
    exact past.addresses.sortedLT_sort.pairwise
  refine (ascending_snapshot m).eq_of_mem_iff hsorted ?_
  rintro ⟨a, w⟩
  rw [h.mem_snapshot]
  simp [History.cells, eq_comm]

theorem Tracks.size_eq (h : Tracks m past) : m.size = past.addresses.card := by
  have hlength : m.snapshot.length = m.size := Std.TreeMap.length_toList
  rw [← hlength, h.snapshot_eq, History.cells, List.length_map, Finset.length_sort]

/-! ## Sessions -/

theorem Tracks.serve (h : Tracks m past) (r : Request) :
    Tracks (m.serve r).1 (r :: past) ∧ (m.serve r).2 = past.answer r := by
  cases r with
  | load words => exact ⟨tracks_load words past, rfl⟩
  | write address value =>
      rw [Memory.serve, write, History.answer]
      cases haddress : address.toAddress? with
      | some a =>
          have ha := Word.toAddress?_eq_some_iff.mp haddress
          rw [if_pos (by omega)]
          exact ⟨h.set rfl (History.writes_write ha value past), rfl⟩
      | none =>
          have hneg := Word.toAddress?_eq_none_iff.mp haddress
          rw [if_neg (by omega)]
          exact ⟨h.of_same rfl (History.writes_write_of_neg hneg value past), rfl⟩
  | read address =>
      rw [Memory.serve, read, History.answer]
      cases haddress : address.toAddress? with
      | some a =>
          have ha := Word.toAddress?_eq_some_iff.mp haddress
          rw [if_pos (by omega), ha, Int.toNat_natCast, ← h.get_eq]
          exact ⟨h.of_same rfl rfl, rfl⟩
      | none =>
          have hneg := Word.toAddress?_eq_none_iff.mp haddress
          rw [if_neg (by omega)]
          exact ⟨h.of_same rfl rfl, rfl⟩
  | get a => exact ⟨h.of_same rfl rfl, congrArg Answer.value (h.get_eq a)⟩
  | snapshot => exact ⟨h.of_same rfl rfl, congrArg Answer.cells h.snapshot_eq⟩

theorem Tracks.session (h : Tracks m past) (requests : List Request) :
    Tracks (m.session requests).1 (requests.reverse ++ past)
      ∧ (m.session requests).2 = past.answers requests := by
  induction requests generalizing m past with
  | nil => exact ⟨h, rfl⟩
  | cons r rs ih =>
      obtain ⟨hnext, hanswer⟩ := h.serve r
      obtain ⟨hrest, hanswers⟩ := ih hnext
      rw [List.reverse_cons, List.append_assoc, Memory.session, History.answers]
      exact ⟨hrest, by rw [hanswer, hanswers]⟩

/-- All that can be seen of a memory with the given history. -/
structure Refines (m : Memory) (past : History) : Prop where
  get : ∀ a, m.get a = past.value a
  /-- The cells are listed in ascending order, so that no address is repeated. -/
  ascending : m.snapshot.Pairwise fun p q => p.1 < q.1
  snapshot : ∀ a w, (a, w) ∈ m.snapshot ↔ a ∈ past.addresses ∧ w = past.value a
  size : m.size = past.addresses.card
  loadedLength : m.loadedLength = past.loaded.length
  extent : m.extent = past.extent
  below : ∀ p ∈ m.snapshot, p.1 < m.extent

theorem Tracks.refines (h : Tracks m past) : Refines m past where
  get := h.get_eq
  ascending := ascending_snapshot m
  snapshot := h.mem_snapshot
  size := h.size_eq
  loadedLength := h.loadedLength
  extent := h.extent
  below := by
    rintro ⟨a, w⟩ hmem
    rw [h.extent]
    exact History.lt_extent ((h.mem_snapshot a w).mp hmem).1

/-- **Refinement.** Whatever is asked of an empty memory, all of its answers are right, and
what can be seen of it afterwards is what the requests say. The extent never needs more than
64 bits, even if the last cell that a word can name was written. -/
theorem session_refines (requests : List Request)
    (h : ∀ words, .load words ∈ requests → words.length < 0x8000000000000000) :
    (empty.session requests).2 = History.answers [] requests
      ∧ Refines (empty.session requests).1 requests.reverse
      ∧ (empty.session requests).1.extent ≤ 0x8000000000000000 := by
  obtain ⟨htracks, hanswers⟩ := tracks_empty.session requests
  rw [List.append_nil] at htracks
  refine ⟨hanswers, htracks.refines, ?_⟩
  rw [htracks.extent]
  refine History.extent_le ?_
  intro words hmem
  exact h words (List.mem_reverse.mp hmem)

/-- A write that a load makes void, one that fails, and one to the last cell. -/
def lastCell : List Request :=
  [.write 500 7, .load [1, 0], .write (-1) 5, .write 0x7fffffffffffffff 0, .read 500,
    .read (-1), .snapshot]

theorem session_refines_lastCell :
    (∀ words, .load words ∈ lastCell → words.length < 0x8000000000000000)
      ∧ History.answers [] lastCell
        = [.done, .done, .failed (.invalidAddress (-1)), .done, .value 0,
          .failed (.invalidAddress (-1)), .cells [(0, 1), (1, 0), (0x7fffffffffffffff, 0)]]
      ∧ History.extent lastCell.reverse = 0x8000000000000000 := by
  have hloads : ∀ words, .load words ∈ lastCell → words.length < 0x8000000000000000 := by
    intro words hmem
    simp only [lastCell, List.mem_cons, Request.load.injEq, reduceCtorEq, false_or, or_false,
      List.not_mem_nil] at hmem
    rw [hmem]
    decide
  obtain ⟨hanswers, hrefines, -⟩ := session_refines lastCell hloads
  refine ⟨hloads, ?_, ?_⟩
  · rw [← hanswers]
    rfl
  · rw [← hrefines.extent]
    rfl

end Memory

end Intcode
