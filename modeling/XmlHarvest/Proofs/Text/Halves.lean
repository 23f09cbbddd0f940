import Mathlib.Data.List.Chain
import XmlHarvest.Text.CodePoint

/-! # Halves of characters

A character beyond the first 65536 has two surrogates as its halves, a high one and a low
one.  Where a high one is directly followed by a low one the two can be joined; a text in
which nothing can be joined is undivided. -/
set_option autoImplicit false

namespace XmlHarvest

namespace CodePoint

variable {c : CodePoint}

def IsHigh (c : CodePoint) : Prop := 0xD800 ≤ c.toNat ∧ c.toNat < 0xDC00

def IsLow (c : CodePoint) : Prop := 0xDC00 ≤ c.toNat ∧ c.toNat < 0xE000

instance (c : CodePoint) : Decidable c.IsHigh := inferInstanceAs (Decidable (_ ∧ _))

instance (c : CodePoint) : Decidable c.IsLow := inferInstanceAs (Decidable (_ ∧ _))

def join? (c d : CodePoint) : Option CodePoint :=
  if c.IsHigh ∧ d.IsLow then
    some (.ofNat (0x10000 + (c.toNat - 0xD800) * 0x400 + (d.toNat - 0xDC00)))
  else none

theorem join?_eq_some {d e : CodePoint} : c.join? d = some e ↔ c.IsHigh ∧ d.IsLow ∧
    .ofNat (0x10000 + (c.toNat - 0xD800) * 0x400 + (d.toNat - 0xDC00)) = e := by
  simp [join?, and_assoc]

theorem join?_eq_none {d : CodePoint} : c.join? d = none ↔ (c.IsHigh → ¬ d.IsLow) := by
  simp [join?]

end CodePoint

namespace Text

variable {cs : Text}

/-- The text with the halves of a character joined where one directly follows the other. -/
def joinHalves : Text → Text
  | [] => []
  | [c] => [c]
  | c :: d :: rest =>
    match c.join? d with
    | some e => e :: joinHalves rest
    | none => c :: joinHalves (d :: rest)

def Undivided (cs : Text) : Prop := cs.IsChain fun c d => c.join? d = none

theorem length_joinHalves_le (cs : Text) : (joinHalves cs).length ≤ cs.length := by
  fun_induction joinHalves cs with
  | case1 => exact Nat.le_refl _
  | case2 c => exact Nat.le_refl _
  | case3 c d rest e hjoin ih =>
    simp only [List.length_cons]
    omega
  | case4 c d rest hjoin ih =>
    simp only [List.length_cons] at ih ⊢
    omega

/-- Joining two halves makes a text shorter, so only an undivided text stays as it is. -/
theorem joinHalves_eq_self : joinHalves cs = cs ↔ Undivided cs := by
  fun_induction joinHalves cs with
  | case1 => exact iff_of_true rfl .nil
  | case2 c => exact iff_of_true rfl (.singleton c)
  | case3 c d rest e hjoin ih =>
    refine iff_of_false (fun h => ?_) fun h => ?_
    · have hlength := congrArg List.length h
      have hle := length_joinHalves_le rest
      simp only [List.length_cons] at hlength
      omega
    · have hnone := (List.isChain_cons_cons.mp h).1
      rw [hjoin] at hnone
      cases hnone
  | case4 c d rest hjoin ih =>
    rw [List.cons_inj_right, ih, Undivided, Undivided, List.isChain_cons_cons]
    exact (and_iff_right hjoin).symm

end Text
end XmlHarvest
