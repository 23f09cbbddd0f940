import XmlHarvest.Extraction
import XmlHarvest.Proofs.Outcome

/-! # Elements that extraction cannot tell apart

Two elements are alike for some tags when their texts are equal and their child
elements with these tags correspond: in document order they have the same tags
and are alike again.  What a schema extracts from an element depends on it only
up to likeness for the tags in the schema's paths. -/
set_option autoImplicit false

namespace XmlHarvest

open Xml

def Xml.Element.childrenAmong (tags : List Text) (e : Element) : List Element :=
  e.elements.filter fun c => c.tag ∈ tags

inductive Alike (tags : List Text) : Element → Element → Prop
  | intro {a b : Element} (text : a.text = b.text)
      (sameTags : (a.childrenAmong tags).map Element.tag = (b.childrenAmong tags).map Element.tag)
      (children : List.Forall₂ (Alike tags) (a.childrenAmong tags) (b.childrenAmong tags)) :
      Alike tags a b

/-! ## The tags of a schema -/

def Anchor.paths : Anchor → List Path
  | here => []
  | within p => [p]
  | each p => [p]

mutual

def FieldSpec.paths : FieldSpec → List Path
  | .shorthand p => [p]
  | .full f => f.chain.paths
  | .nested anchor fields => anchor.paths ++ FieldSpec.pathsOfAll fields

def FieldSpec.pathsOfAll : List (Text × FieldSpec) → List Path
  | [] => []
  | (_, spec) :: rest => spec.paths ++ FieldSpec.pathsOfAll rest

end

def CollectionSpec.paths (c : CollectionSpec) : List Path :=
  c.anchor.paths ++ FieldSpec.pathsOfAll c.fields

def Schema.paths (schema : Schema) : List Path :=
  schema.collections.flatMap fun (_, c) => c.paths

def Schema.tags (schema : Schema) : List Text :=
  schema.paths.flatMap Path.segments

/-! ## Children of alike elements -/

section Resolving

variable {tags : List Text} {a b : Element}

/-- Among all children with a tag that counts, the choice of one tag or another
is a choice among the children that count. -/
theorem childrenTagged_eq_filter {tag : Text} (h : tag ∈ tags) (e : Element) :
    e.childrenTagged tag = (e.childrenAmong tags).filter fun c => c.tag == tag := by
  rw [Element.childrenAmong, List.filter_filter, Element.childrenTagged]
  refine List.filter_congr fun c _ => ?_
  by_cases hc : c.tag = tag
  · simp [hc, h]
  · simp [hc]

theorem child?_eq_head? (e : Element) (tag : Text) :
    e.child? tag = (e.childrenTagged tag).head? := by
  rw [Element.child?, Element.childrenTagged, List.head?_filter]

/-- Choosing by tag keeps two lists with the same tags in step. -/
theorem forall₂_filter_tag {R : Element → Element → Prop} (tag : Text) {as bs : List Element}
    (h : List.Forall₂ R as bs) (sameTags : as.map Element.tag = bs.map Element.tag) :
    List.Forall₂ R (as.filter fun c => c.tag == tag) (bs.filter fun c => c.tag == tag) := by
  induction h with
  | nil => exact .nil
  | @cons c d cs ds hcd _ ih =>
    rw [List.map_cons, List.map_cons, List.cons.injEq] at sameTags
    obtain ⟨htag, hrest⟩ := sameTags
    rw [List.filter_cons, List.filter_cons, htag]
    by_cases hd : (d.tag == tag) = true
    · rw [if_pos hd, if_pos hd]
      exact .cons hcd (ih hrest)
    · rw [if_neg hd, if_neg hd]
      exact ih hrest

theorem Alike.text_eq (h : Alike tags a b) : a.text = b.text := by
  cases h with
  | intro text _ _ => exact text

theorem Alike.childrenTagged (h : Alike tags a b) {tag : Text} (ht : tag ∈ tags) :
    List.Forall₂ (Alike tags) (a.childrenTagged tag) (b.childrenTagged tag) := by
  cases h with
  | intro _ sameTags children =>
    rw [childrenTagged_eq_filter ht, childrenTagged_eq_filter ht]
    exact forall₂_filter_tag tag children sameTags

/-- Paths with tags that count lead to alike elements, or stop at the same
tag. -/
theorem Alike.descends {segments : List Text} (hs : segments ⊆ tags) (h : Alike tags a b) :
    Agree (Alike tags) (descend a segments) (descend b segments) := by
  induction segments generalizing a b with
  | nil => exact .ok h
  | cons tag rest ih =>
    have hchildren := h.childrenTagged (hs (List.mem_cons_self ..))
    rw [descend, descend, child?_eq_head?, child?_eq_head?]
    generalize a.childrenTagged tag = cs at hchildren
    generalize b.childrenTagged tag = ds at hchildren
    cases hchildren with
    | nil => exact .error tag
    | cons hcd _ => exact ih (fun s hmem => hs (List.mem_cons_of_mem _ hmem)) hcd

variable {p : Path}

theorem Alike.follows {segments : List Text} (hs : segments ⊆ tags) (h : Alike tags a b) :
    Agree (Alike tags) (p.follow segments a) (p.follow segments b) := by
  have hdescend := h.descends hs
  rw [Path.follow, Path.follow]
  generalize descend a segments = x at hdescend
  generalize descend b segments = y at hdescend
  cases hdescend with
  | ok related => exact .ok related
  | error s => exact .error _

theorem Alike.textAt_eq (hp : p.segments ⊆ tags) (h : Alike tags a b) :
    p.textAt a = p.textAt b :=
  ((h.follows hp).map fun _ _ hab => hab.text_eq).eq

theorem Alike.nodes (hp : p.segments ⊆ tags) (h : Alike tags a b) :
    Agree (List.Forall₂ (Alike tags)) (p.nodes a) (p.nodes b) := by
  have hparent : p.parent ⊆ tags := fun s hs => hp (List.dropLast_subset _ hs)
  have hterminal : p.terminal ∈ tags := hp (List.getLast_mem p.nonempty)
  exact (h.follows hparent).map fun _ _ hab => hab.childrenTagged hterminal

theorem Alike.textsAt_eq {paths : List Path} (hp : ∀ p ∈ paths, p.segments ⊆ tags)
    (h : Alike tags a b) : Path.textsAt paths a = Path.textsAt paths b := by
  induction paths with
  | nil => rfl
  | cons p rest ih =>
    have hrest := ih fun q hq => hp q (List.mem_cons_of_mem _ hq)
    rw [Path.textsAt, Path.textsAt] at hrest ⊢
    rw [List.mapM_cons, List.mapM_cons, h.textAt_eq (hp p (List.mem_cons_self ..)), hrest]

end Resolving

/-! ## Values of alike elements -/

section Evaluation

variable {tags : List Text} {a b : Element} {s : Scope}

theorem runFull_eq_of_alike {f : FullField} (hp : ∀ p ∈ f.chain.paths, p.segments ⊆ tags)
    (h : Alike tags a b) : s.runFull a f = s.runFull b f := by
  have hchain : s.runChain a f.chain = s.runChain b f.chain := by
    cases hc : f.chain with
    | single p modifiers =>
      rw [hc] at hp
      rw [Scope.runChain, Scope.runChain, h.textAt_eq (hp p (List.mem_cons_self ..))]
    | combined p others combiner modifiers =>
      rw [hc, Chain.paths] at hp
      rw [Scope.runChain, Scope.runChain, h.textsAt_eq hp]
  rw [Scope.runFull, Scope.runFull, hchain]

/-- Anchors at alike elements lead to one alike element each, or to lists of
elements that are alike in turn. -/
inductive AlikeAnchored (tags : List Text) : Scope.Anchored → Scope.Anchored → Prop
  | one {a b : Element} (h : Alike tags a b) : AlikeAnchored tags (.one a) (.one b)
  | many {as bs : List Element} (h : List.Forall₂ (Alike tags) as bs) :
      AlikeAnchored tags (.many as) (.many bs)

theorem Alike.anchored {name : Option Text} {anchor : Anchor}
    (hp : ∀ p ∈ anchor.paths, p.segments ⊆ tags) (h : Alike tags a b) :
    Agree (AlikeAnchored tags) (Scope.anchored name a anchor) (Scope.anchored name b anchor) := by
  cases anchor with
  | here => exact .ok (.one h)
  | within p =>
    exact ((h.follows (hp p (List.mem_cons_self ..))).map fun _ _ hab => .one hab).mapError _
  | each p =>
    exact ((h.nodes (hp p (List.mem_cons_self ..))).map fun _ _ hab => .many hab).mapError _

/-- Collections have the same value at alike elements if their records have. -/
theorem collect_eq_of_alike {name : Option Text} {anchor : Anchor}
    {record : Element → Outcome (List (Scalar × Value))}
    (hp : ∀ p ∈ anchor.paths, p.segments ⊆ tags)
    (hrecord : ∀ c d, Alike tags c d → record c = record d) (h : Alike tags a b) :
    Scope.collect name a anchor record = Scope.collect name b anchor record := by
  refine Agree.eq ((h.anchored hp).bind ?_)
  rintro _ _ (hone | hmany)
  · exact .of_eq (congrArg (fun x => do .ok (Value.map (← x))) (hrecord _ _ hone))
  · have hrecords := Agree.mapM (hmany.imp fun c d hcd =>
      Agree.of_eq (congrArg (fun x => do .ok (Value.map (← x))) (hrecord c d hcd)))
    refine hrecords.bind fun rs ts hrs => ?_
    rw [List.forall₂_eq_eq_eq] at hrs
    exact .of_eq (by rw [hrs])

mutual

/-- A field has the same value at alike elements. -/
theorem field_eq_of_alike (spec : FieldSpec) (name : Option Text)
    (hp : ∀ p ∈ spec.paths, p.segments ⊆ tags) {a b : Element} (h : Alike tags a b) :
    s.field name spec a = s.field name spec b := by
  cases spec with
  | shorthand p =>
    rw [Scope.field, Scope.field, h.textAt_eq (hp p (List.mem_cons_self ..))]
  | full f => exact runFull_eq_of_alike hp h
  | nested anchor fields =>
    rw [FieldSpec.paths] at hp
    rw [Scope.field, Scope.field]
    refine collect_eq_of_alike (fun p hmem => hp p (List.mem_append_left _ hmem)) ?_ h
    exact fun c d hcd => record_eq_of_alike fields name
      (fun p hmem => hp p (List.mem_append_right _ hmem)) hcd

theorem record_eq_of_alike (fields : List (Text × FieldSpec)) (name : Option Text)
    (hp : ∀ p ∈ FieldSpec.pathsOfAll fields, p.segments ⊆ tags) {a b : Element}
    (h : Alike tags a b) : s.record name fields a = s.record name fields b := by
  cases fields with
  | nil => rfl
  | cons entry rest =>
    obtain ⟨fieldName, spec⟩ := entry
    rw [FieldSpec.pathsOfAll] at hp
    have hfield := field_eq_of_alike spec (some fieldName)
      (fun p hmem => hp p (List.mem_append_left _ hmem)) h
    have hrest := record_eq_of_alike rest name
      (fun p hmem => hp p (List.mem_append_right _ hmem)) h
    rw [Scope.record, Scope.record, hfield, hrest]

end

end Evaluation

end XmlHarvest
