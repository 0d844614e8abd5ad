import Intcode.Fault
import Std.Data.TreeMap

/-!
# Memory

Memory is unbounded: every natural number is the address of a cell, and a cell
that was never stored holds zero. The cells that were stored are kept in a map;
`loadedLength` is the size of the program in memory, and `extent` bounds the
addresses of the stored cells.

`get` is the view through which the operations are described: `get_load` and
`get_set` say what each of them leaves in every cell.
-/

namespace Intcode

/-- The cells of a machine. -/
structure Memory where
  /-- The cells that were stored. -/
  cells : Std.TreeMap Nat Word
  /-- The number of words of the loaded program. -/
  loadedLength : Nat
  /-- One more than the highest address stored, and at least the loaded length. -/
  extent : Nat

namespace Memory

/-- Memory in which no cell was stored. -/
def empty : Memory :=
  ⟨∅, 0, 0⟩

/-- Stores words in consecutive cells. -/
def placeFrom (address : Nat) (cells : Std.TreeMap Nat Word) : List Word → Std.TreeMap Nat Word
  | [] => cells
  | w :: ws => placeFrom (address + 1) (cells.insert address w) ws

/-- Memory that holds a program from address zero, and nothing else. -/
def load (words : List Word) : Memory :=
  ⟨placeFrom 0 ∅ words, words.length, words.length⟩

/-- The word in a cell. -/
def get (m : Memory) (address : Nat) : Word :=
  m.cells.getD address 0

/-- The words in consecutive cells. -/
def slice (m : Memory) (address count : Nat) : List Word :=
  (List.range' address count).map m.get

/-- Stores a word in a cell. -/
def set (m : Memory) (address : Nat) (value : Word) : Memory :=
  { m with
    cells := m.cells.insert address value
    extent := max m.extent (address + 1) }

/-- The word in the cell that a word names. -/
def read (m : Memory) (address : Word) : Except Fault Word :=
  match address.toAddress? with
  | some a => .ok (m.get a)
  | none => .error (.invalidAddress address)

/-- Stores a word in the cell that a word names. -/
def write (m : Memory) (address value : Word) : Except Fault Memory :=
  match address.toAddress? with
  | some a => .ok (m.set a value)
  | none => .error (.invalidAddress address)

/-- The stored cells with their addresses, in ascending order. -/
def snapshot (m : Memory) : List (Nat × Word) :=
  m.cells.toList

/-- How many cells were stored. -/
def size (m : Memory) : Nat :=
  m.cells.size

/-! ## What each cell holds -/

theorem getElem?_placeFrom (words : List Word) (address : Nat) (cells : Std.TreeMap Nat Word)
    (a : Nat) :
    (placeFrom address cells words)[a]? =
      if address ≤ a ∧ a < address + words.length then words[a - address]? else cells[a]? := by
  induction words generalizing address cells with
  | nil =>
    have : ¬(address ≤ a ∧ a < address + ([] : List Word).length) := by
      rw [List.length_nil]
      omega
    rw [placeFrom, if_neg this]
  | cons w ws ih =>
    rw [placeFrom, ih, Std.TreeMap.getElem?_insert, List.length_cons]
    by_cases heq : address = a
    · subst heq
      rw [if_neg (by omega), if_pos (Nat.compare_eq_eq.mpr rfl), if_pos (by omega),
        Nat.sub_self, List.getElem?_cons_zero]
    · rw [if_neg (c := compare address a = .eq) (by rwa [Nat.compare_eq_eq])]
      by_cases hin : address ≤ a ∧ a < address + (ws.length + 1)
      · rw [if_pos (by omega), if_pos hin, show a - address = (a - (address + 1)) + 1 by omega,
          List.getElem?_cons_succ]
      · rw [if_neg (by omega), if_neg hin]

/-- The cells that a load stores are those of its words. -/
theorem getElem?_cells_load (words : List Word) (a : Nat) : (load words).cells[a]? = words[a]? := by
  rw [load, getElem?_placeFrom]
  split
  · rw [Nat.sub_zero]
  next h => rw [Std.TreeMap.getElem?_emptyc, List.getElem?_eq_none (by omega)]

/-- A loaded program stands in the first cells, and all others hold zero. -/
@[simp]
theorem get_load (words : List Word) (a : Nat) : (load words).get a = words.getD a 0 := by
  rw [get, Std.TreeMap.getD_eq_getD_getElem?, getElem?_cells_load, List.getD_eq_getElem?_getD]

/-- Storing a word changes its cell and no other. -/
theorem get_set (m : Memory) (address : Nat) (value : Word) (a : Nat) :
    (m.set address value).get a = if address = a then value else m.get a := by
  rw [get, set, Std.TreeMap.getD_insert]
  simp only [Nat.compare_eq_eq, get]

@[simp]
theorem loadedLength_set (m : Memory) (address : Nat) (value : Word) :
    (m.set address value).loadedLength = m.loadedLength :=
  rfl

@[simp]
theorem extent_set (m : Memory) (address : Nat) (value : Word) :
    (m.set address value).extent = max m.extent (address + 1) :=
  rfl

end Memory

end Intcode
