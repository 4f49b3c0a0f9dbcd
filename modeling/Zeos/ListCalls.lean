import Zeos.List

/-!
# The lists as sequences

What `list.c` and the macros of `list.h` do to a memory with any number of disjoint
circular lists, in terms of the sequences of their elements.
-/

namespace Zeos

open Library Links

universe u v

variable {ν : Type u} [DecidableEq ν]

/-- The rest of a walk with the cursor at `pos`. -/
def listForEachFrom (m : Links ν) (head : ν) : Nat → Option ν → Option (List ν)
  | 0, _ => none
  | _, none => none
  | fuel + 1, some pos =>
      if pos = head then some []
      else (listForEachFrom m head fuel (m.next pos)).map fun visited => pos :: visited

/-- `list_for_each`: the elements for which the body is run, in this order. -/
def listForEach (m : Links ν) (head : ν) (fuel : Nat) : Option (List ν) :=
  listForEachFrom m head fuel (m.next head)

theorem listForEachFrom_path {m : Links ν} {head start : ν} {items : List ν} {fuel : Nat}
    (path : m.Path start items head) (notHead : head ∉ items)
    (enough : items.length < fuel) :
    listForEachFrom m head fuel (m.next start) = some items := by
  induction items generalizing start fuel with
  | nil =>
      cases fuel with
      | zero => cases enough
      | succ fuel =>
          rw [path.1]
          exact if_pos rfl
  | cons item items inductionHypothesis =>
      cases fuel with
      | zero => cases enough
      | succ fuel =>
          have different : item ≠ head := by
            intro same
            exact notHead (same ▸ List.mem_cons_self)
          have rest := inductionHypothesis path.2
            (fun member => notHead (List.mem_cons_of_mem item member))
            (Nat.lt_of_succ_lt_succ enough)
          rw [path.1.1, listForEachFrom, if_neg different, rest]
          rfl

/-- A call of one of the functions that write links; `name` is the list concerned. -/
inductive ListCall (κ : Type v) (ν : Type u) where
  | init (name : κ)
  | add (new : ν) (name : κ)
  | addTail (new : ν) (name : κ)
  | del (entry : ν) (name : κ)

namespace ListCall

variable {κ : Type v} [DecidableEq κ]

/-- The code that is run. -/
def run (call : ListCall κ ν) (m : Links ν) (head : κ → ν) : Option (Links ν) :=
  match call with
  | .init name => some (initListHead m (head name))
  | .add new name => listAdd m new (head name)
  | .addTail new name => listAddTail m new (head name)
  | .del entry _ => listDel m entry

/-- The sequences afterwards. -/
def after (call : ListCall κ ν) (items : κ → List ν) : κ → List ν :=
  match call with
  | .init name => Function.update items name []
  | .add new name => Function.update items name (new :: items name)
  | .addTail new name => Function.update items name (items name ++ [new])
  | .del entry name => Function.update items name ((items name).erase entry)

/-- The lists there are afterwards. -/
def present (call : ListCall κ ν) (active : κ → Prop) : κ → Prop :=
  match call with
  | .init name => fun other => active other ∨ other = name
  | _ => active

/-- A new node is in no list, a deleted one is an element of its list, and a node that
becomes an empty list is in no other one. -/
def Possible (call : ListCall κ ν) (active : κ → Prop) (head : κ → ν)
    (items : κ → List ν) : Prop :=
  match call with
  | .init name => ∀ other, active other → other ≠ name →
      head name ∉ head other :: items other
  | .add new name | .addTail new name =>
      active name ∧ ∀ other, active other → new ∉ head other :: items other
  | .del entry name => active name ∧ entry ∈ items name

end ListCall

section Refinement

variable {κ : Type v} [DecidableEq κ] {m : Links ν} {active : κ → Prop}
  {head : κ → ν} {items : κ → List ν}

theorem ListCall.run_family (family : m.Family active head items) {call : ListCall κ ν}
    (possible : call.Possible active head items) :
    ∃ m', call.run m head = some m' ∧
      m'.Family (call.present active) head (call.after items) := by
  cases call with
  | init name => exact ⟨_, rfl, family.selfLoop name possible⟩
  | add new name =>
      obtain ⟨m', result, family', _⟩ := listAdd_family family possible.1 possible.2
      exact ⟨m', result, family'⟩
  | addTail new name =>
      obtain ⟨m', result, family', _⟩ := listAddTail_family family possible.1 possible.2
      exact ⟨m', result, family'⟩
  | del entry name =>
      obtain ⟨m', result, family', _⟩ := listDel_family family possible.1 possible.2
      exact ⟨m', result, family'⟩

omit [DecidableEq κ] in
theorem listForEach_family (family : m.Family active head items) {name : κ}
    (isActive : active name) {fuel : Nat} (enough : (items name).length < fuel) :
    listForEach m (head name) fuel = some (items name) :=
  have ring := family.ring name isActive
  listForEachFrom_path ring.path (List.nodup_cons.mp ring.nodup).1 enough

/-- The pointer lists refine sequences; `list_first` of an empty one is its head. -/
theorem lists_refine_sequences (family : m.Family active head items) :
    (∀ call : ListCall κ ν, call.Possible active head items →
      ∃ m', call.run m head = some m' ∧
        m'.Family (call.present active) head (call.after items)) ∧
    ∀ name, active name →
      (listEmpty m (head name) = true ↔ items name = []) ∧
      listFirst m (head name) = some ((items name).headD (head name)) ∧
      (items name).Nodup ∧
      ∀ fuel, (items name).length < fuel →
        listForEach m (head name) fuel = some (items name) := by
  refine ⟨fun _ possible => ListCall.run_family family possible, ?_⟩
  intro name isActive
  have ring := family.ring name isActive
  exact ⟨listEmpty_iff family isActive, ring.next_head, (List.nodup_cons.mp ring.nodup).2,
    fun _ enough => listForEach_family family isActive enough⟩

end Refinement

/-- Node 0 is the head of a list with the element 2, node 1 that of an empty one. -/
def twoLists : Links Nat where
  next
    | 0 => some 2
    | 1 => some 1
    | 2 => some 0
    | _ => none
  prev
    | 0 => some 2
    | 1 => some 1
    | 2 => some 0
    | _ => none

def twoHeads : Bool → Nat
  | false => 0
  | true => 1

def twoSequences : Bool → List Nat
  | false => [2]
  | true => []

theorem twoLists_family : twoLists.Family (fun _ => True) twoHeads twoSequences := by
  refine ⟨?_, ?_⟩
  · intro name _
    cases name with
    | false => exact ⟨⟨⟨rfl, rfl⟩, rfl, rfl⟩, by decide⟩
    | true => exact ⟨⟨rfl, rfl⟩, by decide⟩
  · intro name other _ _ different
    cases name <;> cases other
    · exact absurd rfl different
    · simp [twoHeads, twoSequences]
    · simp [twoHeads, twoSequences]
    · exact absurd rfl different

/-- The only element is deleted; a third node is put into the empty list. -/
theorem lists_refine_sequences_two :
    (∃ m', (ListCall.del 2 false).run twoLists twoHeads = some m' ∧
      m'.Family (fun _ => True) twoHeads (Function.update twoSequences false [])) ∧
    ∃ m', (ListCall.addTail 7 true).run twoLists twoHeads = some m' ∧
      m'.Family (fun _ => True) twoHeads (Function.update twoSequences true [7]) := by
  have refined := lists_refine_sequences twoLists_family
  have fresh : ∀ name, True → 7 ∉ twoHeads name :: twoSequences name := by
    intro name _
    cases name <;> decide
  exact ⟨refined.1 (.del 2 false) ⟨trivial, List.mem_singleton.mpr rfl⟩,
    refined.1 (.addTail 7 true) ⟨trivial, fresh⟩⟩

end Zeos
