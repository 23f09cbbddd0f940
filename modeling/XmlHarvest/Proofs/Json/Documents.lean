import XmlHarvest.Json.Reader
import XmlHarvest.Proofs.Number.Shortest
import XmlHarvest.Proofs.Text.Digit
import XmlHarvest.Proofs.Value.Clean

/-! # What JSON documents hold

A document is a clean value, unless a NaN is written in it: integers beyond the digit limit
are refused, decimals are rounded, and of two members of one name the last counts.  A text
that is no document is of another form, or it holds an integer beyond the limit. -/
set_option autoImplicit false

namespace XmlHarvest.Json

/-- A value is clean but for the NaNs in it. -/
def CleanButNaN (v : Value) : Prop := ¬ v.Holds (.float .nan) → v.Clean

/-- What is read, if anything is; and if it is for a number that nothing is, then for an
integer with too many digits. -/
structure Gives {α : Type} (P : α → Prop) (x : Except ReadFault (α × Text)) : Prop where
  value : ∀ a rest, x = .ok (a, rest) → P a
  refusal : ∀ fault, x = .error (.number fault) → ∃ n, digitLimit < n ∧ fault = .longNumeral n

namespace Gives

variable {α β : Type} {P : α → Prop} {Q : β → Prop}

theorem malformed : Gives P (.error .malformed) where
  value _ _ h := by cases h
  refusal _ h := by cases h

theorem longNumeral {n : Nat} (h : digitLimit < n) : Gives P (.error (.number (.longNumeral n))) where
  value _ _ h := by cases h
  refusal fault heq := by
    cases heq
    exact ⟨n, h, rfl⟩

theorem ok {a : α} (h : P a) (rest : Text) : Gives P (.ok (a, rest)) where
  value a' rest' heq := by
    cases heq
    exact h
  refusal _ h := by cases h

theorem bind {x : Except ReadFault (α × Text)}
    {f : α × Text → Except ReadFault (β × Text)} (hx : Gives P x)
    (hf : ∀ a rest, P a → Gives Q (f (a, rest))) : Gives Q (x >>= f) where
  value b rest h := by
    obtain ⟨⟨a, more⟩, ha, hb⟩ := (Outcome.bind_eq_ok _ _ _).mp h
    exact (hf a more (hx.value a more ha)).value b rest hb
  refusal fault h := by
    rcases (Outcome.bind_eq_error _ _ _).mp h with hfail | ⟨⟨a, more⟩, ha, hfail⟩
    · exact hx.refusal fault hfail
    · exact (hf a more (hx.value a more ha)).refusal fault hfail

end Gives

theorem cleanButNaN_list {items : List Value} (h : ∀ v ∈ items, CleanButNaN v) :
    CleanButNaN (.list items) := by
  intro hnan
  exact .list fun v hv => h v hv fun hheld => hnan (.item hv hheld)

theorem cleanButNaN_ofEntries {entries : List (Scalar × Value)} (htexts : TextKeys entries)
    (h : ∀ e ∈ entries, CleanButNaN e.2) : CleanButNaN (.ofEntries entries) := by
  rw [ofEntries_of_textKeys htexts]
  intro hnan
  have hmem : ∀ e ∈ Ordered.ofList entries, e ∈ entries := by
    intro e he
    exact (Ordered.mem_of_mem_update he).resolve_left (by simp)
  exact .map (fun e he => htexts e (hmem e he)) Ordered.nodup_ofList fun e he =>
    h e (hmem e he) fun hheld => hnan (.entry he hheld)

theorem gives_string (fuel : Nat) (cs : Text) : Gives (fun _ => True) (string fuel cs) := by
  fun_induction string fuel cs with
  | case1 => exact .malformed
  | case2 => exact .malformed
  | case3 => exact .ok trivial _
  | case4 _ _ _ _ _ ih => exact ih.bind fun _ rest _ => .ok trivial rest
  | case5 => exact .malformed
  | case6 => rename_i ih; exact ih.bind fun _ rest _ => .ok trivial rest
  | case7 => exact .malformed
  | case8 => exact .malformed
  | case9 => rename_i ih; exact ih.bind fun _ rest _ => .ok trivial rest

theorem gives_number (negative : Bool) (cs : Text) :
    Gives CleanButNaN (number negative cs) := by
  have hparts : ∀ (none plain : Bool) (whole : Text) (digits : Nat) (power : Int)
      (rest rest' : Text), Gives CleanButNaN
        (if none then .error .malformed
          else if plain then
            if digitLimit < whole.length then .error (.number (.longNumeral whole.length))
            else .ok (.int (signed negative (Text.decimalValue whole)), rest)
          else .ok (.float (.ofDecimal negative digits power), rest')) := by
    intro none plain whole digits power rest rest'
    split
    · exact .malformed
    · split
      · split
        · exact .longNumeral ‹_›
        · rename_i hlength
          have hshort : tenTo whole.length ≤ tenTo digitLimit := Value.tenTo_le_tenTo (by omega)
          refine .ok (fun _ => .scalar ?_) rest
          exact writable_signed negative ((Text.decimalValue_lt whole).trans_le hshort)
      · refine .ok (fun _ => .scalar ?_) rest'
        exact Binary64.ofDecimal_canonical negative digits power
  exact hparts _ _ _ _ _ _ _

theorem gives_atom (cs : Text) : Gives CleanButNaN (atom cs) := by
  unfold atom
  split
  · rename_i word v hfind
    refine .ok ?_ _
    have hliteral := List.mem_of_find?_eq_some hfind
    simp only [literals, List.mem_cons, List.not_mem_nil, or_false, Prod.mk.injEq] at hliteral
    intro hnan
    rcases hliteral with ⟨-, rfl⟩ | ⟨-, rfl⟩ | ⟨-, rfl⟩ | ⟨-, rfl⟩ | ⟨-, rfl⟩ | ⟨-, rfl⟩
    · exact .scalar trivial
    · exact .scalar trivial
    · exact .scalar trivial
    · exact absurd (.scalar _) hnan
    · exact .scalar ⟨trivial, by simp⟩
    · exact .scalar ⟨trivial, by simp⟩
  · split
    · exact gives_number true _
    · exact gives_number false _

def CleanMembers (entries : List (Scalar × Value)) : Prop :=
  TextKeys entries ∧ ∀ e ∈ entries, CleanButNaN e.2

theorem cleanMembers_cons {name : Text} {v : Value} {entries : List (Scalar × Value)}
    (hv : CleanButNaN v) (h : CleanMembers entries) : CleanMembers ((.str name, v) :: entries) :=
  ⟨List.forall_mem_cons.mpr ⟨⟨name, rfl⟩, h.1⟩, List.forall_mem_cons.mpr ⟨hv, h.2⟩⟩

theorem gives_value (fuel : Nat) : ∀ cs, Gives CleanButNaN (value fuel cs) ∧
    Gives (fun vs => ∀ v ∈ vs, CleanButNaN v) (items fuel cs) ∧
    Gives CleanMembers (members fuel cs) := by
  induction fuel with
  | zero =>
    intro cs
    rw [value, items, members]
    exact ⟨.malformed, .malformed, .malformed⟩
  | succ fuel ih =>
    intro cs
    refine ⟨?value, ?items, ?members⟩
    case value =>
      unfold value
      split
      · exact .malformed
      · exact (gives_string _ _).bind fun s rest _ => .ok (fun _ => Value.clean_str _) rest
      · rename_i heq
        cases heq
        split
        · exact .ok (fun _ => .list (by simp)) _
        · exact (ih _).2.1.bind fun vs rest hvs => .ok (cleanButNaN_list hvs) rest
      · rename_i heq
        cases heq
        split
        · exact .ok (fun _ => .map (by simp [TextKeys]) (by simp [Ordered.keys]) (by simp)) _
        · exact (ih _).2.2.bind fun entries rest h => .ok (cleanButNaN_ofEntries h.1 h.2) rest
      · exact gives_atom _
    case items =>
      rw [items]
      refine (ih cs).1.bind fun v rest hv => ?_
      dsimp only
      split
      · exact .ok (by simpa using hv) _
      · exact (ih _).2.1.bind fun vs rest hvs => .ok (List.forall_mem_cons.mpr ⟨hv, hvs⟩) rest
      · exact .malformed
    case members =>
      have hnone : CleanMembers [] := ⟨by simp [TextKeys], by simp⟩
      unfold members
      split
      · exact .malformed
      · rename_i heq
        cases heq
        refine (gives_string _ _).bind fun key afterKey _ => ?_
        dsimp only
        split
        · refine (ih _).1.bind fun v afterValue hv => ?_
          dsimp only
          split
          · exact .ok (cleanMembers_cons hv hnone) _
          · exact (ih _).2.2.bind fun entries rest h => .ok (cleanMembers_cons hv h) rest
          · exact .malformed
        · exact .malformed
      · exact .malformed

/-- A document without a NaN is clean. -/
theorem clean_of_read {cs : Text} {v : Value} (h : read cs = .ok v)
    (hnan : ¬ v.Holds (.float .nan)) : v.Clean := by
  obtain ⟨⟨v', rest⟩, hvalue, h⟩ := (Outcome.bind_eq_ok _ _ _).mp h
  dsimp only at h
  split at h
  · cases h
    exact (gives_value _ _).1.value _ _ hvalue hnan
  · cases h

end XmlHarvest.Json
