import OSaSP.Foundations.Pool
import Mathlib.Data.Set.Function

/-!
# Numbers handed out with the entries of a history

Parties append entries to a common history, and each party keeps the entry it
dealt with last together with the number that a counter had reached then.  The
counter shows the length of the history, perhaps only modulo its width, so it
tells different lengths apart below some bound.
-/

namespace OSaSP

/-- The entry stands in the history at the place that the number names, counted
from one. -/
def HasNumber
    (count : Nat → Count)
    (history : List Entry)
    (entry : Entry)
    (number : Count) : Prop :=
  ∃ place, history[place]? = some entry ∧ number = count (place + 1)

theorem HasNumber.append
    {count : Nat → Count}
    {history : List Entry}
    {entry : Entry}
    {number : Count}
    (numbered : HasNumber count history entry number)
    (added : List Entry) :
    HasNumber count (history ++ added) entry number := by
  obtain ⟨place, found, numberEq⟩ := numbered
  obtain ⟨bound, -⟩ := List.getElem?_eq_some_iff.mp found
  refine ⟨place, ?_, numberEq⟩
  rw [List.getElem?_append_left bound]
  exact found

/-- The entry just appended has the number that the counter reaches. -/
theorem hasNumber_last
    (count : Nat → Count)
    (history : List Entry)
    (entry : Entry) :
    HasNumber count (history ++ [entry]) entry (count (history.length + 1)) :=
  ⟨history.length, by simp, rfl⟩

/-- No entry of a history has the next number. -/
theorem HasNumber.ne_next
    {count : Nat → Count}
    {bound : Nat}
    {history : List Entry}
    {entry : Entry}
    {number : Count}
    (distinct : Set.InjOn count {length | length < bound})
    (numbered : HasNumber count history entry number)
    (room : history.length + 1 < bound) :
    number ≠ count (history.length + 1) := by
  obtain ⟨place, found, rfl⟩ := numbered
  obtain ⟨inside, -⟩ := List.getElem?_eq_some_iff.mp found
  intro same
  have places : place + 1 = history.length + 1 :=
    distinct (show place + 1 < bound by omega) room same
  omega

/-- Every party's entry has the party's number, and no two parties have the
same number as long as the counter tells the lengths apart. -/
structure Numbered
    (count : Nat → Count)
    (bound : Nat)
    (report : Party → Option (Entry × Count))
    (history : List Entry)
    (parties : List Party) : Prop where
  number : ∀ party ∈ parties, ∀ entry number,
    report party = some (entry, number) →
      HasNumber count history entry number
  different : history.length < bound →
    ∀ (first second : Nat) (party other : Party) (entry entry' : Entry)
      (number number' : Count),
      parties[first]? = some party → parties[second]? = some other →
      first ≠ second → report party = some (entry, number) →
      report other = some (entry', number') → number ≠ number'

namespace Numbered

variable {count : Nat → Count} {bound : Nat}
variable {report : Party → Option (Entry × Count)}
variable {history : List Entry} {parties : List Party}

theorem nil : Numbered count bound report history [] where
  number := by simp
  different := by simp

/-- A party that joins has no number yet. -/
theorem join
    (numbered : Numbered count bound report history parties)
    {new : Party}
    (silent : report new = none) :
    Numbered count bound report history (parties ++ [new]) where
  number := by
    intro party member entry number reported
    rcases List.mem_append.mp member with old | joined
    · exact numbered.number party old entry number reported
    · rw [List.mem_singleton.mp joined, silent] at reported
      cases reported
  different := by
    have old : ∀ (place : Nat) (party : Party) (value : Entry × Count),
        (parties ++ [new])[place]? = some party →
          report party = some value → parties[place]? = some party := by
      intro place party value found reported
      rw [List.getElem?_append] at found
      split at found
      · exact found
      · rw [List.mem_singleton.mp (List.mem_of_getElem? found),
          silent] at reported
        cases reported
    intro room first second party other entry entry' number number' found
      found' distinct reported reported'
    exact numbered.different room first second party other entry entry' number
      number' (old first party _ found reported)
      (old second other _ found' reported') distinct reported reported'

/-- A party that changes keeps its number or gives it up. -/
theorem replace
    (numbered : Numbered count bound report history parties)
    {index : Nat}
    {old new : Party}
    (present : parties[index]? = some old)
    (kept : report new = report old ∨ report new = none) :
    Numbered count bound report history (parties.set index new) := by
  have before : ∀ (place : Nat) (party : Party) (value : Entry × Count),
      (parties.set index new)[place]? = some party →
        report party = some value →
          ∃ party, parties[place]? = some party ∧
            report party = some value := by
    intro place party value found reported
    rcases Pool.getElem?_set_cases found with ⟨rfl, rfl⟩ | ⟨-, found⟩
    · rcases kept with same | silent
      · exact ⟨old, present, same ▸ reported⟩
      · rw [silent] at reported
        cases reported
    · exact ⟨party, found, reported⟩
  constructor
  · intro party member entry number reported
    obtain ⟨place, found⟩ := List.getElem?_of_mem member
    obtain ⟨party, found, reported⟩ := before place party _ found reported
    exact numbered.number party (List.mem_of_getElem? found) entry number
      reported
  · intro room first second party other entry entry' number number' found
      found' distinct reported reported'
    obtain ⟨party, found, reported⟩ := before first party _ found reported
    obtain ⟨other, found', reported'⟩ :=
      before second other _ found' reported'
    exact numbered.different room first second party other entry entry' number
      number' found found' distinct reported reported'

/-- A party that appends an entry takes the next number. -/
theorem take
    (distinct : Set.InjOn count {length | length < bound})
    (numbered : Numbered count bound report history parties)
    {index : Nat}
    {new : Party}
    {entry : Entry}
    (reported : report new = some (entry, count (history.length + 1))) :
    Numbered count bound report (history ++ [entry])
      (parties.set index new) where
  number := by
    intro party member entry' number reported'
    rcases List.mem_or_eq_of_mem_set member with old | rfl
    · exact (numbered.number party old entry' number reported').append _
    · rw [reported] at reported'
      cases reported'
      exact hasNumber_last count history entry
  different := by
    intro room first second party other entry₁ entry₂ number number' found
      found' different reported₁ reported₂
    rw [List.length_append, List.length_singleton] at room
    -- Only one of the two places can be that of the new number.
    rcases Pool.getElem?_set_cases found with ⟨here, rfl⟩ | ⟨-, before⟩ <;>
      rcases Pool.getElem?_set_cases found' with ⟨here', rfl⟩ | ⟨-, before'⟩
    · exact absurd (here.trans here'.symm) different
    · rw [reported] at reported₁
      cases reported₁
      exact Ne.symm ((numbered.number other (List.mem_of_getElem? before')
        entry₂ number' reported₂).ne_next distinct room)
    · rw [reported] at reported₂
      cases reported₂
      exact (numbered.number party (List.mem_of_getElem? before) entry₁ number
        reported₁).ne_next distinct room
    · exact numbered.different (by omega) first second party other entry₁
        entry₂ number number' before before' different reported₁ reported₂

end Numbered
end OSaSP
