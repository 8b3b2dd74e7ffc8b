import Mathlib.Tactic

/-!
# The table of bound processes

The shared region has slots for processes, each with a pid and a mode; a slot with the pid 0 is
free. A table that is found in the state 2 was left in the middle of a change: the slot that was
given last is cleared and the counters are counted again. The slots stand for the collection of the
processes in them, and after any calls a call does to it what it should (`calls_register`).
-/

namespace Cascette.Storage

open List

structure Slot where
  pid : UInt32
  mode : UInt32
deriving DecidableEq

/-- Both arrays of the source have `max_slots` elements. The counters count slots, so that they do
not overflow. The 64-bit generation, which counts the added processes, is left out, and with it
its overflow. -/
structure PidTracking where
  state : UInt32
  writerCount : ℕ
  totalCount : ℕ
  lastModifiedSlot : ℕ
  slots : List Slot

namespace PidTracking

def new (maxSlots : ℕ) : PidTracking := ⟨1, 0, 0, 0, replicate maxSlots ⟨0, 0⟩⟩

/-- The mode 2 is read-only. -/
def recount (table : PidTracking) : PidTracking :=
  let slots := table.slots.set table.lastModifiedSlot ⟨0, 0⟩
  { table with
    state := 1
    writerCount := slots.countP fun slot => slot.mode ≠ 2 ∧ slot.pid ≠ 0
    totalCount := slots.countP (·.pid ≠ 0)
    slots := slots }

/-- What a call finds. -/
def recovered (table : PidTracking) : PidTracking :=
  if table.state = 2 then table.recount else table

def addProcess (table : PidTracking) (pid mode : UInt32) : Option ℕ × PidTracking :=
  let table := table.recovered
  if table.slots.length ≤ table.totalCount then (none, table)
  else match table.slots.findIdx? (·.pid = 0) with
    | none => (none, table)
    | some slot => (some slot, {
        state := 1
        writerCount := table.writerCount + if mode ≠ 2 then 1 else 0
        totalCount := table.totalCount + 1
        lastModifiedSlot := slot
        slots := table.slots.set slot ⟨pid, mode⟩ })

/-- The subtractions stop at zero. -/
def removeProcess (table : PidTracking) (pid : UInt32) : Bool × PidTracking :=
  let table := table.recovered
  match table.slots.findIdx? (·.pid = pid) with
  | none => (false, table)
  | some slot => (true, { table with
      state := 1
      writerCount := table.writerCount - if (table.slots.getD slot ⟨0, 0⟩).mode ≠ 2 then 1 else 0
      totalCount := table.totalCount - 1
      slots := table.slots.set slot ⟨0, 0⟩ })

inductive Call
  | add (pid mode : UInt32)
  | remove (pid : UInt32)

def Call.pid : Call → UInt32
  | .add pid _ | .remove pid => pid

/-- Whether a call succeeds, and the table after it. -/
def perform (table : PidTracking) : Call → Bool × PidTracking
  | .add pid mode => (table.addProcess pid mode).map Option.isSome id
  | .remove pid => table.removeProcess pid

/-! ## The processes -/

/-- What a call answers and does to a collection of processes. -/
inductive Registers (room : ℕ) (processes : Multiset Slot) : Call → Bool → Multiset Slot → Prop
  | added {pid mode : UInt32} : processes.card < room →
      Registers room processes (.add pid mode) true (⟨pid, mode⟩ ::ₘ processes)
  | full {pid mode : UInt32} : processes.card = room →
      Registers room processes (.add pid mode) false processes
  | removed {process : Slot} {rest : Multiset Slot} : processes = process ::ₘ rest →
      Registers room processes (.remove process.pid) true rest
  | absent {pid : UInt32} : (∀ process ∈ processes, process.pid ≠ pid) →
      Registers room processes (.remove pid) false processes

def registered (slots : List Slot) : Multiset Slot := (slots.filter (·.pid ≠ 0) : List Slot)

/-- No change is under way, and the counters say what the slots hold. -/
structure Counted (table : PidTracking) : Prop where
  state : table.state ≠ 2
  total : table.totalCount = (registered table.slots).card
  writers : table.writerCount = (registered table.slots).countP (·.mode ≠ 2)

variable {slots : List Slot} {slot : ℕ} {old : Slot} {table : PidTracking} {pid mode : UInt32}

theorem registered_cons (s : Slot) (slots : List Slot) :
    registered (s :: slots) = registered [s] + registered slots := by
  rw [registered, ← singleton_append, filter_append, ← Multiset.coe_add]
  rfl

/-- Neither side is a difference, so that nothing is lost where a slot was free. -/
theorem registered_set (h : slots[slot]? = some old) (s : Slot) :
    registered (slots.set slot s) + registered [old] = registered slots + registered [s] := by
  induction slots generalizing slot with
  | nil => cases h
  | cons first slots ih =>
    cases slot with
    | zero =>
      cases h
      rw [set_cons_zero, registered_cons s, registered_cons old slots, add_assoc, add_comm,
        add_comm (registered slots)]
    | succ slot =>
      rw [set_cons_succ, registered_cons, registered_cons first slots, add_assoc, add_assoc, ih h]

theorem exists_of_findIdx? {p : Slot → Bool} (h : slots.findIdx? p = some slot) :
    ∃ old, slots[slot]? = some old ∧ p old := by
  obtain ⟨hLt, hOld, -⟩ := findIdx?_eq_some_iff_getElem.mp h
  exact ⟨_, getElem?_eq_getElem hLt, hOld⟩

/-! ## Calls -/

theorem one_ne_two : (1 : UInt32) ≠ 2 := by decide

theorem recovered_eq (h : table.Counted) : table.recovered = table := if_neg h.state

theorem counted_recovered (h : table.state = 2 ∨ table.Counted) :
    table.recovered.Counted ∧ table.recovered.slots.length = table.slots.length := by
  rw [recovered]
  split_ifs with hState
  · refine ⟨⟨one_ne_two, countP_eq_length_filter, ?_⟩, length_set⟩
    rw [registered, Multiset.coe_countP, countP_filter]
    simp [recount]
  · exact ⟨h.resolve_left hState, rfl⟩

/-- What a call leaves behind. -/
def After (table : PidTracking) (call : Call) (result : Bool × PidTracking) : Prop :=
  result.2.Counted ∧ result.2.slots.length = table.slots.length ∧
    Registers table.slots.length (registered table.slots) call result.1 (registered result.2.slots)

variable (h : table.Counted) (hPid : pid ≠ 0)
include h hPid

theorem after_addProcess : table.After (.add pid mode) (table.perform (.add pid mode)) := by
  have hLe : (registered table.slots).card ≤ table.slots.length := length_filter_le _ _
  have hFull (hAll : table.slots.length ≤ (registered table.slots).card) :
      table.After (.add pid mode) (false, table) := ⟨h, rfl, .full (hLe.antisymm hAll)⟩
  rw [perform, addProcess, recovered_eq h]
  by_cases hTotal : table.slots.length ≤ table.totalCount
  · rw [if_pos hTotal]
    exact hFull (h.total ▸ hTotal)
  · rw [if_neg hTotal]
    split
    next hNone =>
      refine hFull (length_filter_eq_length_iff.mpr ?_).ge
      simpa using hNone
    next slot hSlot =>
      obtain ⟨old, hOld, hFree⟩ := exists_of_findIdx? hSlot
      have hSet : registered (table.slots.set slot ⟨pid, mode⟩) =
          ⟨pid, mode⟩ ::ₘ registered table.slots := by
        have := registered_set hOld ⟨pid, mode⟩
        simpa [registered, of_decide_eq_true hFree, hPid, add_comm] using this
      rw [h.total] at hTotal
      refine ⟨⟨one_ne_two, ?_, ?_⟩, length_set, hSet ▸ .added (by omega)⟩
      · exact h.total ▸ hSet ▸ (Multiset.card_cons _ _).symm
      · have hMore := Multiset.countP_cons (·.mode ≠ 2) ⟨pid, mode⟩ (registered table.slots)
        rw [← hSet, ← h.writers] at hMore
        exact hMore.symm

theorem after_removeProcess : table.After (.remove pid) (table.perform (.remove pid)) := by
  rw [perform, removeProcess, recovered_eq h]
  split
  next hNone =>
    refine ⟨h, rfl, .absent fun process hMem => ?_⟩
    simpa using findIdx?_eq_none_iff.mp hNone process (mem_of_mem_filter hMem)
  next slot hSlot =>
    obtain ⟨old, hOld, hFound⟩ := exists_of_findIdx? hSlot
    cases of_decide_eq_true hFound
    have hCons : registered table.slots = old ::ₘ registered (table.slots.set slot ⟨0, 0⟩) := by
      have := registered_set hOld ⟨0, 0⟩
      simpa [registered, hPid, add_comm] using this.symm
    refine ⟨⟨one_ne_two, ?_, ?_⟩, length_set, .removed hCons⟩
    · rw [h.total, hCons, Multiset.card_cons, Nat.add_sub_cancel]
    · rw [getD_eq_getElem?_getD, hOld, h.writers, hCons, Multiset.countP_cons, Option.getD_some,
        Nat.add_sub_cancel]

omit h hPid

theorem after_perform (h : table.state = 2 ∨ table.Counted) {call : Call} (hPid : call.pid ≠ 0) :
    table.recovered.After call (table.perform call) := by
  have hCounted := (counted_recovered h).1
  have hSame : table.perform call = table.recovered.perform call := by
    cases call <;> simp only [perform, addProcess, removeProcess, recovered_eq hCounted]
  rw [hSame]
  cases call with
  | add pid mode => exact after_addProcess hCounted hPid
  | remove pid => exact after_removeProcess hCounted hPid

/-- After any calls with pids other than 0, on a table whose counters are right or that was left in
the middle of a change, the next call answers and leaves what it should, and the counters are
right. -/
theorem calls_register {start : PidTracking} (hStart : start.state = 2 ∨ start.Counted)
    {calls : List Call} (hPids : ∀ call ∈ calls, call.pid ≠ 0) {call : Call}
    (hPid : call.pid ≠ 0) :
    let table := calls.foldl (fun table call => (table.perform call).2) start
    (table.perform call).2.Counted ∧
      Registers start.slots.length (registered table.recovered.slots) call
        (table.perform call).1 (registered (table.perform call).2.slots) := by
  intro table
  have hTable : (table.state = 2 ∨ table.Counted) ∧ table.slots.length = start.slots.length := by
    refine foldlRecOn calls _ (motive := fun t : PidTracking => (t.state = 2 ∨ t.Counted) ∧
      t.slots.length = start.slots.length) ⟨hStart, rfl⟩ fun t hTable call hMem => ?_
    have hAfter := after_perform hTable.1 (hPids call hMem)
    exact ⟨.inr hAfter.1, hAfter.2.1.trans ((counted_recovered hTable.1).2.trans hTable.2)⟩
  obtain ⟨hCounted, -, hRegisters⟩ := after_perform hTable.1 hPid
  rw [(counted_recovered hTable.1).2, hTable.2] at hRegisters
  exact ⟨hCounted, hRegisters⟩

/-- Two slots are filled, and there is no room for a third process. -/
theorem calls_register_two :
    let table := ((new 2).perform (.add 5 0)).2.perform (.add 7 2)
    (table.2.perform (.add 9 0)).1 = false ∧ (table.2.perform (.add 9 0)).2.Counted :=
  ⟨rfl, (@calls_register (new 2) (.inr ⟨one_ne_two, rfl, rfl⟩) [.add 5 0, .add 7 2] (by decide)
    (.add 9 0) (by decide)).1⟩

end PidTracking

end Cascette.Storage
