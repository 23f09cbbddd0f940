import XmlHarvest.Extraction
import XmlHarvest.Proofs.Outcome
import XmlHarvest.Proofs.Text.Split

/-! # Paths under a path

A collection may be evaluated within a path, or each of its fields may be declared
with that path in front of its own.  Following two paths in turn is following one
path, so both give the same record; and when they fail, the same thing fails, only
the place that is reported differs. -/
set_option autoImplicit false

namespace XmlHarvest

open Xml

/-- The path that goes on along `p` from where `w` leads. -/
def Path.under (w p : Path) : Path where
  segments := w.segments ++ p.segments
  nonempty := List.append_ne_nil_of_right_ne_nil _ p.nonempty
  plain := by
    intro s hs
    rcases List.mem_append.mp hs with h | h
    · exact w.plain s h
    · exact p.plain s h

def Chain.under (w : Path) : Chain → Chain
  | .single p modifiers => .single (w.under p) modifiers
  | .combined p others combiner modifiers =>
    .combined (w.under p) (others.map w.under) combiner modifiers

def Anchor.under (w : Path) : Anchor → Anchor
  | .here => .within w
  | .within p => .within (w.under p)
  | .each p => .each (w.under p)

/-- A field with `w` in front of its own paths.  The fields of a nested collection
start from its anchor and stay as they are. -/
def FieldSpec.under (w : Path) : FieldSpec → FieldSpec
  | .shorthand p => .shorthand (w.under p)
  | .full f => .full ⟨f.chain.under w, f.mapper⟩
  | .nested anchor fields => .nested (anchor.under w) fields

def FieldSpec.allUnder (w : Path) (fields : List (Text × FieldSpec)) :
    List (Text × FieldSpec) :=
  fields.map fun field => (field.1, field.2.under w)

namespace Path

variable {w p : Path}

theorem parent_under : (w.under p).parent = w.segments ++ p.parent := by
  simp only [parent, under]
  exact List.dropLast_append_of_ne_nil p.nonempty

theorem terminal_under : (w.under p).terminal = p.terminal := by
  simp only [terminal, under]
  exact List.getLast_append_of_ne_nil _ p.nonempty

/-- A path under another one is written after it, with a slash between them. -/
theorem text_under : (w.under p).text = w.text ++ "/" ++ p.text := by
  have hjoin : ∀ front back : List Text, front ≠ [] → back ≠ [] →
      Text.joinWith [CodePoint.char '/'] (front ++ back) =
        Text.joinWith [CodePoint.char '/'] front ++
          CodePoint.char '/' :: Text.joinWith [CodePoint.char '/'] back := by
    intro front back hfront hback
    induction front with
    | nil => exact absurd rfl hfront
    | cons piece more ih =>
      cases more with
      | nil => exact Text.joinWith_cons hback
      | cons next more =>
        have hrest := ih (List.cons_ne_nil next more)
        rw [List.cons_append, Text.joinWith_cons (by simp), hrest,
          Text.joinWith_cons (List.cons_ne_nil next more), List.append_assoc, List.cons_append]
  rw [List.append_assoc]
  exact hjoin _ _ w.nonempty p.nonempty

end Path

/-! ## What failed -/

/-- A failure without the place where it was met. -/
def Failure.unplaced : Failure → Failure
  | .error e => .of e.problem
  | .fault f => .fault f

@[simp] theorem Failure.kind_unplaced (failure : Failure) :
    failure.unplaced.kind = failure.kind := by
  cases failure <;> rfl

@[simp] theorem Failure.unplaced_within (failure : Failure) (outer : Place) :
    (failure.within outer).unplaced = failure.unplaced := by
  cases failure <;> rfl

def unplaced {α : Type} (x : Outcome α) : Outcome α := x.mapError Failure.unplaced

section Unplaced

variable {α β : Type}

theorem unplaced_bind (x : Outcome α) (f : α → Outcome β) :
    unplaced (x >>= f) = unplaced x >>= fun a => unplaced (f a) :=
  Outcome.mapError_bind _ _ _

theorem unplaced_map (f : α → β) (x : Outcome α) : unplaced (f <$> x) = f <$> unplaced x := by
  cases x <;> rfl

theorem unplaced_withinPlace (collection field path : Option Text) (x : Outcome α) :
    unplaced (withinPlace collection field path x) = unplaced x := by
  cases x with
  | ok a => rfl
  | error failure => exact congrArg Except.error (Failure.unplaced_within failure _)

theorem unplaced_bind_congr {x y : Outcome α} {f g : α → Outcome β}
    (hxy : unplaced x = unplaced y) (hfg : ∀ a, unplaced (f a) = unplaced (g a)) :
    unplaced (x >>= f) = unplaced (y >>= g) := by
  rw [unplaced_bind, unplaced_bind, hxy]
  simp only [hfg]

theorem unplaced_mapM_congr {γ δ : Type} {f : γ → Outcome α} {g : δ → Outcome α} {h : δ → γ}
    (hfg : ∀ d, unplaced (f (h d)) = unplaced (g d)) (ds : List δ) :
    unplaced ((ds.map h).mapM f) = unplaced (ds.mapM g) := by
  induction ds with
  | nil => rfl
  | cons d ds ih =>
    rw [List.map_cons, List.mapM_cons, List.mapM_cons]
    apply unplaced_bind_congr (hfg d)
    intro a
    exact unplaced_bind_congr ih fun _ => rfl

theorem unplaced_eq_ok {x : Outcome α} {a : α} : unplaced x = .ok a ↔ x = .ok a := by
  cases x with
  | ok b => rfl
  | error failure => simp [unplaced, Except.mapError]

theorem unplaced_eq_error {x : Outcome α} {failure : Failure} :
    unplaced x = .error failure ↔ ∃ e, x = .error e ∧ e.unplaced = failure :=
  Outcome.mapError_eq_error

end Unplaced

/-! ## Following two paths in turn -/

theorem descend_append (e : Element) (front back : List Text) :
    descend e (front ++ back) = descend e front >>= fun target => descend target back := by
  induction front generalizing e with
  | nil => rfl
  | cons tag rest ih =>
    rw [List.cons_append, descend, descend]
    cases e.child? tag with
    | none => rfl
    | some child => exact ih child

section Reached

variable {w : Path} {e target : Element} (h : descend e w.segments = .ok target)

include h

theorem follow_of_reached (p : Path) (segments : List Text) :
    unplaced ((w.under p).follow (w.segments ++ segments) e) =
      unplaced (p.follow segments target) := by
  have hdescend : descend e (w.segments ++ segments) = descend target segments := by
    rw [descend_append, h]
    rfl
  rw [Path.follow, Path.follow, hdescend]
  cases descend target segments <;> rfl

theorem textAt_of_reached (p : Path) :
    unplaced ((w.under p).textAt e) = unplaced (p.textAt target) := by
  rw [Path.textAt, Path.textAt, unplaced_map, unplaced_map]
  exact congrArg _ (follow_of_reached h p p.segments)

theorem nodes_of_reached (p : Path) :
    unplaced ((w.under p).nodes e) = unplaced (p.nodes target) := by
  rw [Path.nodes, Path.nodes, unplaced_map, unplaced_map, Path.parent_under, Path.terminal_under,
    follow_of_reached h p p.parent]

variable (s : Scope)

theorem runFull_of_reached (f : FullField) :
    unplaced (s.runFull e ⟨f.chain.under w, f.mapper⟩) = unplaced (s.runFull target f) := by
  have hchain : unplaced (s.runChain e (f.chain.under w)) =
      unplaced (s.runChain target f.chain) := by
    cases f.chain with
    | single p modifiers =>
      exact unplaced_bind_congr (textAt_of_reached h p) fun _ => rfl
    | combined p others combiner modifiers =>
      have htexts : unplaced (Path.textsAt ((p :: others).map w.under) e) =
          unplaced (Path.textsAt (p :: others) target) :=
        unplaced_mapM_congr (f := (Path.textAt · e)) (h := w.under) (textAt_of_reached h) _
      exact unplaced_bind_congr htexts fun _ => rfl
  exact unplaced_bind_congr hchain fun _ => rfl

/-- A collection is anchored at the same elements, whether its anchor has `w` in
front or is followed from where `w` leads. -/
theorem collect_of_reached (name : Option Text) (anchor : Anchor)
    (record : Element → Outcome (List (Scalar × Value))) :
    unplaced (Scope.collect name e (anchor.under w) record) =
      unplaced (Scope.collect name target anchor record) := by
  have hanchored : unplaced (Scope.anchored name e (anchor.under w)) =
      unplaced (Scope.anchored name target anchor) := by
    cases anchor with
    | here =>
      rw [Anchor.under, Scope.anchored, Scope.anchored, unplaced_withinPlace, unplaced_map,
        Path.node, Path.follow, h]
      rfl
    | within p =>
      rw [Anchor.under, Scope.anchored, Scope.anchored, unplaced_withinPlace,
        unplaced_withinPlace, unplaced_map, unplaced_map]
      exact congrArg _ (follow_of_reached h p p.segments)
    | each p =>
      rw [Anchor.under, Scope.anchored, Scope.anchored, unplaced_withinPlace,
        unplaced_withinPlace, unplaced_map, unplaced_map, nodes_of_reached h]
  exact unplaced_bind_congr hanchored fun _ => rfl

theorem field_of_reached (name : Option Text) (spec : FieldSpec) :
    unplaced (s.field name (spec.under w) e) = unplaced (s.field name spec target) := by
  cases spec with
  | shorthand p =>
    rw [FieldSpec.under, Scope.field, Scope.field, unplaced_map, unplaced_map,
      textAt_of_reached h]
  | full f => exact runFull_of_reached h s f
  | nested anchor fields => exact collect_of_reached h name anchor _

theorem record_of_reached (name : Option Text) (fields : List (Text × FieldSpec)) :
    unplaced (s.record name (FieldSpec.allUnder w fields) e) =
      unplaced (s.record name fields target) := by
  induction fields with
  | nil => rfl
  | cons field rest ih =>
    obtain ⟨fieldName, spec⟩ := field
    have hfield := field_of_reached h s (some fieldName) spec
    rw [FieldSpec.allUnder, List.map_cons, Scope.record, Scope.record]
    apply unplaced_bind_congr
    · rw [unplaced_withinPlace, unplaced_withinPlace, hfield]
    · intro v
      exact unplaced_bind_congr ih fun _ => rfl

end Reached

section Missed

variable {w : Path} {e : Element} {tag : Text} (h : descend e w.segments = .error tag)

include h

theorem follow_of_missed (p : Path) (segments : List Text) :
    unplaced (p.follow (w.segments ++ segments) e) = .raise (.pathNotFound tag) := by
  have hdescend : descend e (w.segments ++ segments) = .error tag := by
    rw [descend_append, h]
    rfl
  rw [Path.follow, hdescend]
  rfl

theorem textAt_of_missed (p : Path) :
    unplaced ((w.under p).textAt e) = .raise (.pathNotFound tag) := by
  rw [Path.textAt, unplaced_map]
  exact congrArg _ (follow_of_missed h (w.under p) p.segments)

variable (s : Scope)

/-- The first path of a field is the first thing that it follows. -/
theorem runFull_of_missed (f : FullField) :
    unplaced (s.runFull e ⟨f.chain.under w, f.mapper⟩) = .raise (.pathNotFound tag) := by
  have hchain : unplaced (s.runChain e (f.chain.under w)) = .raise (.pathNotFound tag) := by
    cases f.chain with
    | single p modifiers =>
      rw [Chain.under, Scope.runChain, unplaced_bind, textAt_of_missed h]
      rfl
    | combined p others combiner modifiers =>
      rw [Chain.under, Scope.runChain, Path.textsAt, List.mapM_cons, unplaced_bind, unplaced_bind,
        textAt_of_missed h]
      rfl
  rw [Scope.runFull, unplaced_bind, hchain]
  rfl

theorem collect_of_missed (name : Option Text) (anchor : Anchor)
    (record : Element → Outcome (List (Scalar × Value))) :
    unplaced (Scope.collect name e (anchor.under w) record) = .raise (.pathNotFound tag) := by
  have hanchored : unplaced (Scope.anchored name e (anchor.under w)) =
      .raise (.pathNotFound tag) := by
    cases anchor with
    | here =>
      rw [Anchor.under, Scope.anchored, unplaced_withinPlace, unplaced_map, Path.node, Path.follow,
        h]
      rfl
    | within p =>
      rw [Anchor.under, Scope.anchored, unplaced_withinPlace, unplaced_map]
      exact congrArg _ (follow_of_missed h (w.under p) p.segments)
    | each p =>
      rw [Anchor.under, Scope.anchored, unplaced_withinPlace, unplaced_map, Path.nodes,
        unplaced_map, Path.parent_under, follow_of_missed h]
      rfl
  rw [Scope.collect, unplaced_bind, hanchored]
  rfl

theorem field_of_missed (name : Option Text) (spec : FieldSpec) :
    unplaced (s.field name (spec.under w) e) = .raise (.pathNotFound tag) := by
  cases spec with
  | shorthand p =>
    rw [FieldSpec.under, Scope.field, unplaced_map, textAt_of_missed h]
    rfl
  | full f => exact runFull_of_missed h s f
  | nested anchor fields => exact collect_of_missed h name anchor _

/-- Whichever field comes first fails as `w` does. -/
theorem record_of_missed (name : Option Text) (field : Text × FieldSpec)
    (more : List (Text × FieldSpec)) :
    unplaced (s.record name (FieldSpec.allUnder w (field :: more)) e) =
      .raise (.pathNotFound tag) := by
  rw [FieldSpec.allUnder, List.map_cons, Scope.record, unplaced_bind, unplaced_withinPlace,
    field_of_missed h]
  rfl

end Missed

theorem collection_under (s : Scope) (name : Option Text) (w : Path)
    (field : Text × FieldSpec) (more : List (Text × FieldSpec)) (e : Element) :
    unplaced (s.collection name ⟨.within w, field :: more⟩ e) =
      unplaced (s.collection name ⟨.here, FieldSpec.allUnder w (field :: more)⟩ e) := by
  cases h : descend e w.segments with
  | ok target =>
    have hrecord := record_of_reached h s name (field :: more)
    rw [Scope.collection, Scope.collection, ← Anchor.under, collect_of_reached h]
    exact (unplaced_bind_congr hrecord fun _ => rfl).symm
  | error tag =>
    have hrecord := record_of_missed h s name field more
    rw [Scope.collection, Scope.collection, ← Anchor.under, collect_of_missed h]
    change _ = unplaced (s.record name (FieldSpec.allUnder w (field :: more)) e >>= fun entries =>
      .ok (Value.map entries))
    rw [unplaced_bind, hrecord]
    rfl

/-- A collection within a path, which has a field, gives what the collection with
that path in front of its fields gives at the same element.  If one of them fails,
so does the other: an error of the same class, which reports the same problem.  In
front of another path the path is written before it, with a slash between them. -/
theorem within_eq_fields_under (s : Scope) (name : Option Text) (w : Path)
    (field : Text × FieldSpec) (more : List (Text × FieldSpec)) (e : Element) :
    (∀ p, (w.under p).text = w.text ++ "/" ++ p.text) ∧
    (∀ r, s.collection name ⟨.within w, field :: more⟩ e = .ok r ↔
      s.collection name ⟨.here, FieldSpec.allUnder w (field :: more)⟩ e = .ok r) ∧
    (∀ failure, s.collection name ⟨.within w, field :: more⟩ e = .error failure →
      ∃ failure', s.collection name ⟨.here, FieldSpec.allUnder w (field :: more)⟩ e =
        .error failure' ∧ failure'.kind = failure.kind ∧ failure'.unplaced = failure.unplaced) := by
  have hsame := collection_under s name w field more e
  refine ⟨fun p => Path.text_under, ?_, ?_⟩
  · intro r
    rw [← unplaced_eq_ok, hsame, unplaced_eq_ok]
  · intro failure h
    have hleft : unplaced (s.collection name ⟨.within w, field :: more⟩ e) =
        .error failure.unplaced := unplaced_eq_error.mpr ⟨failure, h, rfl⟩
    obtain ⟨failure', h', hcause⟩ := unplaced_eq_error.mp (hsame.symm.trans hleft)
    refine ⟨failure', h', ?_, hcause⟩
    rw [← failure'.kind_unplaced, hcause, failure.kind_unplaced]

end XmlHarvest
