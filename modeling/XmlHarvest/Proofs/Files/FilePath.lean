import XmlHarvest.Files.FilePath
import XmlHarvest.Proofs.Text.Split

/-! # The texts of file paths

A file path is normal when each of its names leads somewhere and holds no slash.
Paths that are read from texts are normal, and so are paths that are resolved against
normal ones.  A normal path is what its text is read as, so the text tells it apart from
all other normal paths. -/
set_option autoImplicit false

namespace XmlHarvest.FilePath

/-- A name that can stand between two slashes and is not left out there. -/
def IsName (name : Text) : Prop := isStep name = true ∧ CodePoint.char '/' ∉ name

def Normal (p : FilePath) : Prop := ∀ name ∈ p.names, IsName name

variable {p q base : FilePath} {s : Text}

theorem normal_parse : (parse s).Normal := by
  intro name hname
  obtain ⟨hpiece, hstep⟩ := List.mem_filter.mp hname
  exact ⟨hstep, Text.notMem_of_mem_splitOn hpiece⟩

theorem normal_resolve (hbase : base.Normal) (hp : p.Normal) : (base.resolve p).Normal := by
  rw [resolve]
  split
  · exact hp
  · intro name hname
    rcases List.mem_append.mp hname with h | h
    · exact hbase name h
    · exact hp name h

/-- A relative path leads to different places from different bases. -/
theorem resolve_left_inj (hp : p.isAbsolute = false) : q.resolve p = base.resolve p ↔ q = base := by
  constructor
  · intro h
    obtain ⟨root, names⟩ := q
    obtain ⟨root', names'⟩ := base
    simp only [resolve, hp, Bool.false_eq_true, if_false, mk.injEq, List.append_cancel_right_eq] at h
    rw [h.1, h.2]
  · intro h
    rw [h]

section Reading

def body (p : FilePath) : Text := Text.joinWith "/" p.names

theorem ne_nil_of_isStep {name : Text} (h : isStep name = true) : name ≠ [] := by
  rintro rfl
  simp [isStep] at h

theorem head?_body (h : p.Normal) {c : CodePoint} (hc : p.body.head? = some c) :
    c ≠ .char '/' := by
  have hne : ∀ name ∈ p.names, name ≠ [] := fun name hname => ne_nil_of_isStep (h name hname).1
  obtain ⟨name, hname, hmem⟩ := Text.head?_joinWith hne hc
  rintro rfl
  exact (h name hname).2 hmem

/-- Up to names that are left out, the body is split into the names. -/
theorem filter_splitOn_body (h : p.Normal) :
    (Text.splitOn (.char '/') p.body).filter isStep = p.names := by
  have hkept : p.names.filter isStep = p.names :=
    List.filter_eq_self.mpr fun name hname => (h name hname).1
  by_cases hnames : p.names = []
  · simp [body, hnames, Text.joinWith, Text.splitOn, isStep]
  · have hsplit : Text.splitOn (.char '/') p.body = p.names :=
      Text.splitOn_joinWith hnames fun name hname => (h name hname).2
    rw [hsplit, hkept]

def slashes : PathRoot → Nat
  | .workingDirectory => 0
  | .slash => 1
  | .doubleSlash => 2

theorem ofSlashes_slashes (root : PathRoot) : .ofSlashes (slashes root) = root := by
  cases root <;> rfl

theorem takeWhile_slashes (n : Nat) {cs : Text} (h : ∀ c, cs.head? = some c → c ≠ .char '/') :
    (List.replicate n (CodePoint.char '/') ++ cs).takeWhile (· == CodePoint.char '/') =
      List.replicate n (.char '/') := by
  have hrest : cs.takeWhile (· == CodePoint.char '/') = [] := by
    cases cs with
    | nil => rfl
    | cons c rest => simp [h c rfl]
  rw [List.takeWhile_append_of_pos (by simp), hrest, List.append_nil]

theorem filter_splitOn_slashes (n : Nat) (cs : Text) :
    (Text.splitOn (.char '/') (List.replicate n (.char '/') ++ cs)).filter isStep =
      (Text.splitOn (.char '/') cs).filter isStep := by
  induction n with
  | zero => rfl
  | succ n ih => simpa [List.replicate_succ, Text.splitOn, isStep] using ih

theorem text_eq (h : p ≠ ⟨.workingDirectory, []⟩) :
    p.text = List.replicate (slashes p.root) (.char '/') ++ p.body := by
  obtain ⟨root, names⟩ := p
  cases root with
  | workingDirectory =>
    cases names with
    | nil => exact absurd rfl h
    | cons name rest => rfl
  | slash => rfl
  | doubleSlash => rfl

theorem parse_text (h : p.Normal) : parse p.text = p := by
  by_cases hdot : p = ⟨.workingDirectory, []⟩
  · subst hdot
    decide +kernel
  · have hroot : (p.text.takeWhile (· == CodePoint.char '/')).length = slashes p.root := by
      rw [text_eq hdot, takeWhile_slashes _ (fun c => head?_body h), List.length_replicate]
    have hnames : (Text.splitOn (.char '/') p.text).filter isStep = p.names := by
      rw [text_eq hdot, filter_splitOn_slashes, filter_splitOn_body h]
    rw [parse, hroot, hnames, ofSlashes_slashes]

theorem text_inj (hp : p.Normal) (hq : q.Normal) : p.text = q.text ↔ p = q := by
  constructor
  · intro h
    rw [← parse_text hp, h, parse_text hq]
  · exact congrArg text

end Reading

end XmlHarvest.FilePath
