import Mathlib.Data.Finset.Insert
import Mathlib.Data.Fintype.EquivFin
import Mathlib.Logic.Relation
import Mathlib.Order.WellFounded

namespace WaitCycle

open Relation

variable {α : Type*} {r : α → α → Prop}

/-- The points on a path: each leads to another of them or to the end. -/
theorem exists_points {a b : α} (h : TransGen r a b) :
    ∃ C : Finset α, a ∈ C ∧ ∀ c ∈ C, ∃ d, r c d ∧ (d ∈ C ∨ d = b) := by
  classical
  induction h using TransGen.head_induction_on with
  | @single a hab =>
    refine ⟨{a}, Finset.mem_singleton_self a, fun c hc => ⟨b, ?_, Or.inr rfl⟩⟩
    rw [Finset.mem_singleton.mp hc]
    exact hab
  | @head a a' haa' _ ih =>
    obtain ⟨C, ha', hC⟩ := ih
    refine ⟨insert a C, Finset.mem_insert_self a C, fun c hc => ?_⟩
    rcases Finset.mem_insert.mp hc with rfl | hc
    · exact ⟨a', haa', Or.inl (Finset.mem_insert_of_mem ha')⟩
    · obtain ⟨d, hcd, hd⟩ := hC c hc
      exact ⟨d, hcd, hd.imp_left Finset.mem_insert_of_mem⟩

/-- A finite set each of whose points leads to one of them has a cycle. -/
theorem exists_loop {C : Finset α} (hne : C.Nonempty) (hC : ∀ c ∈ C, ∃ d ∈ C, r c d) :
    ∃ a, TransGen r a a := by
  by_contra hloop
  let after : C → C → Prop := fun d c => TransGen r c.1 d.1
  have htrans : IsTrans C after := ⟨fun _ _ _ hab hbc => TransGen.trans hbc hab⟩
  have hirrefl : Std.Irrefl after := ⟨fun c hc => hloop ⟨c.1, hc⟩⟩
  have hwf : WellFounded after := Finite.wellFounded_of_trans_of_irrefl _
  obtain ⟨c, hc⟩ := hne
  obtain ⟨m, -, hmin⟩ := hwf.has_min Set.univ ⟨⟨c, hc⟩, trivial⟩
  obtain ⟨d, hd, hmd⟩ := hC m.1 m.2
  exact hmin ⟨d, hd⟩ trivial (TransGen.single hmd)

/-- A relation has a cycle exactly where a finite set is closed under it. -/
theorem exists_loop_iff :
    (∃ a, TransGen r a a) ↔ ∃ C : Finset α, C.Nonempty ∧ ∀ c ∈ C, ∃ d ∈ C, r c d := by
  constructor
  · rintro ⟨a, ha⟩
    obtain ⟨C, hmem, hC⟩ := exists_points ha
    refine ⟨C, ⟨a, hmem⟩, fun c hc => ?_⟩
    obtain ⟨d, hcd, hd | rfl⟩ := hC c hc
    · exact ⟨d, hd, hcd⟩
    · exact ⟨d, hmem, hcd⟩
  · rintro ⟨C, hne, hC⟩
    exact exists_loop hne hC

end WaitCycle
