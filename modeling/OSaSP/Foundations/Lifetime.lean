import Mathlib.Algebra.Order.Group.Multiset
import Mathlib.Data.Multiset.Range

/-!
# Items that are made, shared and destroyed

Parties make items, share them through a store and destroy them.  An item
belongs to its maker until it is shared, to the store until it is taken, and
to the party that took it until it is destroyed; its maker may still have to
note it after it was shared.  As long as nobody destroys an item that is still
to be noted, nobody has a destroyed item in hand.

What a pool of parties has in hand is collected over the pool, one item for
each party at most.
-/

namespace OSaSP
namespace Lifetime

/-- The items made so far, by where they are: in the hands of their makers, in
the store, in the hands of those who took them, destroyed, and, beside that,
still to be noted by their makers. -/
structure Ledger (Item : Type u) where
  made : Multiset Item
  fresh : Multiset Item
  stored : Multiset Item
  taken : Multiset Item
  destroyed : Multiset Item
  noted : Multiset Item

variable {Item : Type u}

/-- The moves of an item.  One that is still to be noted is not destroyed. -/
inductive Move : Ledger Item → Ledger Item → Prop
  | kept {ledger : Ledger Item} : Move ledger ledger
  | make
      {made fresh stored taken destroyed noted : Multiset Item}
      {item : Item} :
      item ∉ made →
      Move ⟨made, fresh, stored, taken, destroyed, noted⟩
        ⟨item ::ₘ made, item ::ₘ fresh, stored, taken, destroyed, noted⟩
  | drop
      {made fresh stored taken destroyed noted : Multiset Item}
      {item : Item} :
      Move ⟨made, item ::ₘ fresh, stored, taken, destroyed, noted⟩
        ⟨made, fresh, stored, taken, item ::ₘ destroyed, noted⟩
  | share
      {made fresh stored taken destroyed noted : Multiset Item}
      {item : Item} :
      Move ⟨made, item ::ₘ fresh, stored, taken, destroyed, noted⟩
        ⟨made, fresh, item ::ₘ stored, taken, destroyed, item ::ₘ noted⟩
  | note
      {made fresh stored taken destroyed noted : Multiset Item}
      {item : Item} :
      Move ⟨made, fresh, stored, taken, destroyed, item ::ₘ noted⟩
        ⟨made, fresh, stored, taken, destroyed, noted⟩
  | take
      {made fresh stored taken destroyed noted : Multiset Item}
      {item : Item} :
      Move ⟨made, fresh, item ::ₘ stored, taken, destroyed, noted⟩
        ⟨made, fresh, stored, item ::ₘ taken, destroyed, noted⟩
  | destroy
      {made fresh stored taken destroyed noted : Multiset Item}
      {item : Item} :
      item ∉ noted →
      Move ⟨made, fresh, stored, item ::ₘ taken, destroyed, noted⟩
        ⟨made, fresh, stored, taken, item ::ₘ destroyed, noted⟩

namespace Ledger

/-- Every item has one owner, the store and the destroyed items counted as
such, and nobody has a destroyed item to note. -/
structure Sound (ledger : Ledger Item) : Prop where
  owned : (ledger.fresh + ledger.stored + ledger.taken +
    ledger.destroyed).Nodup
  makers : (ledger.fresh + ledger.noted).Nodup
  known : ∀ item ∈ ledger.fresh + ledger.stored + ledger.taken +
    ledger.destroyed, item ∈ ledger.made
  alive : ∀ item ∈ ledger.noted, item ∈ ledger.made ∧ item ∉ ledger.destroyed

/-- Nothing made yet. -/
def empty : Ledger Item where
  made := 0
  fresh := 0
  stored := 0
  taken := 0
  destroyed := 0
  noted := 0

theorem empty_sound : (empty : Ledger Item).Sound where
  owned := Multiset.nodup_zero
  makers := Multiset.nodup_zero
  known item member := by simp [empty] at member
  alive item member := by simp [empty] at member

/-- A taken item is not destroyed. -/
theorem Sound.not_destroyed_of_taken
    {ledger : Ledger Item}
    (sound : ledger.Sound)
    {item : Item}
    (taken : item ∈ ledger.taken) :
    item ∉ ledger.destroyed := by
  have apart := (Multiset.nodup_add.mp sound.owned).2.2
  exact Multiset.disjoint_left.mp apart
    (Multiset.mem_add.mpr (.inr taken))

/-- Every move keeps the ledger sound. -/
theorem Sound.move
    {ledger next : Ledger Item}
    (sound : ledger.Sound)
    (moved : Move ledger next) :
    next.Sound := by
  obtain ⟨owned, makers, known, alive⟩ := sound
  cases moved with
  | kept => exact ⟨owned, makers, known, alive⟩
  | make new =>
      dsimp only at owned makers known alive
      constructor
      · simp only [Multiset.cons_add, Multiset.nodup_cons]
        exact ⟨fun old => new (known _ old), owned⟩
      · simp only [Multiset.cons_add, Multiset.nodup_cons]
        refine ⟨fun old => new ?_, makers⟩
        rcases Multiset.mem_add.mp old with inHand | noted
        · apply known
          simp only [Multiset.mem_add]
          exact .inl (.inl (.inl inHand))
        · exact (alive _ noted).1
      · intro item member
        simp only [Multiset.cons_add, Multiset.mem_cons] at member ⊢
        exact member.imp_right (known item)
      · intro item noted
        obtain ⟨old, lives⟩ := alive item noted
        exact ⟨Multiset.mem_cons_of_mem old, lives⟩
  | drop =>
      dsimp only at owned makers known alive
      simp only [Multiset.cons_add] at owned makers known
      constructor
      · simp only [Multiset.add_cons]
        exact owned
      · exact (Multiset.nodup_cons.mp makers).2
      · simp only [Multiset.add_cons]
        exact known
      · intro item noted
        obtain ⟨old, lives⟩ := alive item noted
        refine ⟨old, fun gone => ?_⟩
        rcases Multiset.mem_cons.mp gone with rfl | earlier
        · exact (Multiset.nodup_cons.mp makers).1
            (Multiset.mem_add.mpr (.inr noted))
        · exact lives earlier
  | share =>
      dsimp only at owned makers known alive
      simp only [Multiset.cons_add] at owned makers known
      constructor
      · simp only [Multiset.add_cons, Multiset.cons_add]
        exact owned
      · simp only [Multiset.add_cons]
        exact makers
      · simp only [Multiset.add_cons, Multiset.cons_add]
        exact known
      · intro item noted
        rcases Multiset.mem_cons.mp noted with rfl | earlier
        · refine ⟨known item (Multiset.mem_cons_self _ _), fun gone => ?_⟩
          exact (Multiset.nodup_cons.mp owned).1
            (Multiset.mem_add.mpr (.inr gone))
        · exact alive item earlier
  | note =>
      dsimp only at owned makers known alive
      refine ⟨owned, ?_, known, fun item noted => ?_⟩
      · simp only [Multiset.add_cons, Multiset.nodup_cons] at makers
        exact makers.2
      · exact alive item (Multiset.mem_cons_of_mem noted)
  | take =>
      dsimp only at owned makers known alive
      simp only [Multiset.add_cons, Multiset.cons_add] at owned known
      refine ⟨?_, makers, ?_, alive⟩
      · simp only [Multiset.add_cons, Multiset.cons_add]
        exact owned
      · simp only [Multiset.add_cons, Multiset.cons_add]
        exact known
  | destroy unnoted =>
      dsimp only at owned makers known alive
      simp only [Multiset.add_cons, Multiset.cons_add] at owned known
      refine ⟨?_, makers, ?_, fun item noted => ?_⟩
      · simp only [Multiset.add_cons]
        exact owned
      · simp only [Multiset.add_cons]
        exact known
      · obtain ⟨old, lives⟩ := alive item noted
        refine ⟨old, fun gone => ?_⟩
        rcases Multiset.mem_cons.mp gone with rfl | earlier
        · exact unnoted noted
        · exact lives earlier

end Ledger

/-- An item that comes last. -/
theorem coe_snoc (items : List Item) (item : Item) :
    ((items ++ [item] : List Item) : Multiset Item) =
      item ::ₘ (items : Multiset Item) := by
  rw [← Multiset.coe_add, add_comm]
  rfl

/-! ## What a pool has in hand -/

variable {Party : Type v}

/-- The items in the hands of a pool. -/
def carried (carries : Party → Option Item) (pool : List Party) :
    Multiset Item :=
  pool.filterMap carries

@[simp] theorem carried_nil (carries : Party → Option Item) :
    carried carries [] = 0 := rfl

theorem carried_cons
    (carries : Party → Option Item)
    (party : Party)
    (pool : List Party) :
    carried carries (party :: pool) =
      (carries party).toList + carried carries pool := by
  cases held : carries party <;> simp [carried, held]

/-- A party that joins with empty hands. -/
theorem carried_join
    {carries : Party → Option Item}
    {party : Party}
    (pool : List Party)
    (empty : carries party = none) :
    carried carries (pool ++ [party]) = carried carries pool := by
  simp [carried, empty]

/-- Take a party out, and the rest does not depend on what it carries. -/
theorem exists_carried_rest
    (carries : Party → Option Item)
    {pool : List Party}
    {index : Nat}
    {party : Party}
    (present : pool[index]? = some party) :
    ∃ rest : Multiset Item,
      carried carries pool = (carries party).toList + rest ∧
        ∀ moved, carried carries (pool.set index moved) =
          (carries moved).toList + rest := by
  induction pool generalizing index with
  | nil => cases present
  | cons first pool inductionHypothesis =>
      cases index with
      | zero =>
          rw [List.getElem?_cons_zero, Option.some.injEq] at present
          subst present
          exact ⟨carried carries pool, carried_cons carries first pool,
            fun moved => carried_cons carries moved pool⟩
      | succ index =>
          rw [List.getElem?_cons_succ] at present
          obtain ⟨rest, before, after⟩ := inductionHypothesis present
          refine ⟨(carries first).toList + rest, ?_, fun moved => ?_⟩
          · rw [carried_cons, before]
            exact add_left_comm _ _ _
          · rw [List.set_cons_succ, carried_cons, after]
            exact add_left_comm _ _ _

end Lifetime
end OSaSP
